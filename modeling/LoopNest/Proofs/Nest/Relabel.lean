import LoopNest.Proofs.Header.Relabel
import LoopNest.Proofs.Nest.Events
import LoopNest.Report

/-!
# The check of a program with other numbers of variables

What a check finds depends neither on spans nor on the numbers of variables, as long as different
variables have different numbers.

* `Event.shape`: an event without places and numbers.
* `Function.shapes_events`: the events of a kernel stay.
* `Program.shapes_classify`: the findings of a check stay.
-/

namespace LoopNest

/-! ## Events without places and numbers -/

def MappedLoop.shape (l : MappedLoop) : MappedLoop :=
  { l with span := .none, descriptor := l.descriptor.shape }

/-- The event without places and without the numbers of variables. -/
def Event.shape : Event → Event
  | entered kernel => entered kernel
  | passed level _ => passed level .none
  | described d => described d.shape
  | rejected kernel r _ => rejected kernel r.unplaced []
  | accepted l => accepted l.shape

theorem Event.isRejection_shape (e : Event) : e.shape.isRejection = e.isRejection := by
  cases e with
  | described d =>
    cases hd : d.failure <;>
      simp [shape, isRejection, rejection?, Descriptor.shape, Descriptor.relabel, hd]
  | _ => rfl

theorem Event.any_isRejection_of_shapes {es fs : List Event} (h : es.map shape = fs.map shape) :
    es.any isRejection = fs.any isRejection := by
  have hany (gs : List Event) : gs.any isRejection = (gs.map shape).any isRejection := by
    rw [List.any_map]
    exact congrArg gs.any (funext fun e => (isRejection_shape e).symm)
  rw [hany es, hany fs, h]

/-! ## The events of a loop -/

section

variable {σ : Numbering}

theorem Attribute.level?_relabel (a : Attribute) : (a.relabel σ).level? = a.level? := rfl

theorem Attribute.dimension?_relabel (a : Attribute) : (a.relabel σ).dimension? = a.dimension? := by
  unfold dimension? relabel
  cases a.args with
  | nil => rfl
  | cons x xs =>
    cases x with
    | literal s value => cases value <;> rfl
    | _ => rfl

namespace Stmt

theorem level?_relabel (s : Stmt) :
    (s.relabel σ).level? = s.level?.map fun l => (l.1, l.2.relabel σ) := by
  rw [level?, level?, attributes_relabel]
  induction s.attributes with
  | nil => rfl
  | cons a marks ih =>
    rw [List.map_cons, List.findSome?_cons, List.findSome?_cons, a.level?_relabel, ih]
    cases a.level? <;> rfl

theorem isLoop_relabel (s : Stmt) : (s.relabel σ).isLoop = s.isLoop := by
  cases s <;> rfl

theorem isMappedTo_relabel (l : Level) (s : Stmt) :
    (s.relabel σ).isMappedTo l = s.isMappedTo l := by
  rw [isMappedTo, isMappedTo, isLoop_relabel, level?_relabel]
  cases s.level? <;> rfl

theorem mayStandBetween_relabel (s : Stmt) : (s.relabel σ).mayStandBetween = s.mayStandBetween := by
  have hmapped : (s.relabel σ).isMappedLoop = s.isMappedLoop := by
    rw [isMappedLoop, isMappedLoop, isLoop_relabel, level?_relabel, Option.isSome_map]
  rw [mayStandBetween, mayStandBetween, hmapped]
  cases s <;> rfl

theorem misplaced?_relabel (s : Stmt) :
    (s.relabel σ).misplaced? = s.misplaced?.map fun l => (l.1, l.2.relabel σ) := by
  rw [misplaced?, misplaced?, isLoop_relabel, level?_relabel]
  split <;> rfl

mutual

theorem direct_relabel : ∀ s : Stmt, (s.relabel σ).direct = s.direct.map (relabel σ)
  | block h ss => by
    have hempty : (h.relabel σ).attributes.isEmpty = h.attributes.isEmpty := List.isEmpty_map
    simp only [relabel, direct, hempty, directAll_relabel ss]
    split <;> rfl
  | declaration _ _ | expression _ _ | forLoop _ _ _ _ _ | ifThen _ _ _ | ifElse _ _ _ _
  | whileLoop _ _ _ | returns _ _ | empty _ => rfl

theorem directAll_relabel : ∀ ss : List Stmt,
    directAll (relabelAll σ ss) = (directAll ss).map (relabel σ)
  | [] => rfl
  | s :: ss => by
    rw [relabelAll, directAll, directAll, direct_relabel s, directAll_relabel ss, List.map_append]

end

theorem any_relabel {p : Stmt → Bool} (hp : ∀ s, p (relabel σ s) = p s) (ss : List Stmt) :
    (ss.map (relabel σ)).any p = ss.any p := by
  rw [List.any_map]
  exact congrArg ss.any (funext hp)

theorem shadowing?_relabel (hσ : Function.Injective σ.vars) (s : Stmt) (v : VarRef) :
    (s.relabel σ).shadowing? (v.relabel σ.vars) = (s.shadowing? v).map (Declarator.relabel σ) := by
  have hds : ((s.relabel σ).statements.flatMap fun t => (t.declarators?).getD []) =
      (s.statements.flatMap fun t => (t.declarators?).getD []).map (Declarator.relabel σ) := by
    rw [statements_relabel, List.flatMap_map, List.map_flatMap]
    refine List.flatMap_congr fun t _ => ?_
    rw [declarators?_relabel]
    cases t.declarators? <;> rfl
  rw [shadowing?, shadowing?, hds, List.find?_map]
  congr 1
  refine congrArg (fun p => List.find? p _) (funext fun d => ?_)
  have hsame : (d.relabel σ).var.sameVar (v.relabel σ.vars) = d.var.sameVar v := by
    rw [Bool.eq_iff_iff]
    simp only [VarRef.sameVar, Declarator.relabel, VarRef.relabel, beq_iff_eq]
    exact hσ.eq_iff
  simp only [Function.comp, hsame]
  rfl

end Stmt

/-- The same kernel with another table of variables. -/
def Site.withVars (k : Site) (vars : VarTable) : Site := { k with vars }

variable {vars' : VarTable} (k : Site) (n : Nesting)

theorem Site.shapes_position (level : Level) (mark : Attribute) (body : Stmt) :
    ((k.withVars vars').position n level (mark.relabel σ) (body.relabel σ)).map Event.shape =
      (k.position n level mark body).map Event.shape := by
  have hinner : (body.relabel σ).statements.any (Stmt.isMappedTo .inner) =
      body.statements.any (Stmt.isMappedTo .inner) := by
    rw [Stmt.statements_relabel, Stmt.any_relabel (Stmt.isMappedTo_relabel _)]
  unfold position
  rw [hinner]
  cases level with
  | outer =>
    dsimp only
    split
    · rfl
    · split <;> rfl
  | inner =>
    dsimp only
    split <;> rfl

theorem Site.shapes_header (hσ : Function.Injective σ.vars) (d : Descriptor) (body : Stmt) :
    ((k.withVars vars').header (d.relabel σ) (body.relabel σ)).map Event.shape =
      (k.header d body).map Event.shape := by
  have hfailure : (d.relabel σ).failure = d.failure.map Rejection.unplaced := rfl
  have hiterator : (d.relabel σ).iterator = d.iterator.map (Declarator.relabel σ) := rfl
  have hdescribed : (Event.described (d.relabel σ)).shape = (Event.described d).shape :=
    congrArg Event.described (d.shape_relabel σ)
  unfold header
  rw [List.map_cons, List.map_cons, hdescribed, hfailure, hiterator]
  cases d.failure with
  | some r => rfl
  | none =>
    cases d.iterator with
    | none => rfl
    | some iterator =>
      have hshadowing := Stmt.shadowing?_relabel hσ body iterator.var
      have hinitializer : ((k.withVars vars').initializer (iterator.relabel σ)).map Event.shape =
          (k.initializer iterator).map Event.shape := by
        simp only [initializer, Declarator.relabel, Option.isNone_map]
        split <;> rfl
      have hvar : (iterator.relabel σ).var = iterator.var.relabel σ.vars := rfl
      simp only [Option.map_none, Option.map_some, List.map_append, hinitializer]
      congr 2
      unfold shadowing
      rw [hvar, hshadowing]
      cases body.shadowing? iterator.var <;> rfl

theorem Site.shapes_between (level : Level) (body : Stmt) :
    ((k.withVars vars').between level (body.relabel σ)).map Event.shape =
      (k.between level body).map Event.shape := by
  unfold between
  rw [Stmt.direct_relabel, Stmt.any_relabel (Stmt.isMappedTo_relabel _)]
  split
  · rw [rejectionsBetween, rejectionsBetween, List.filter_map, List.map_map, List.map_map,
      List.map_map]
    have hfilter : (fun s => !s.mayStandBetween) ∘ Stmt.relabel σ =
        fun s : Stmt => !s.mayStandBetween := funext fun s => by
      rw [Function.comp, Stmt.mayStandBetween_relabel]
    rw [hfilter]
    rfl
  · rfl

theorem Site.shapes_loop (hσ : Function.Injective σ.vars) (head : StmtHead) (level : Level)
    (mark : Attribute) (l : Loop) (hinit : ∀ v ∈ l.init.firsts, v.KeepsType σ k.vars vars') :
    ((k.withVars vars').loop n (head.relabel σ) level (mark.relabel σ) (l.relabel σ)).map Event.shape =
      (k.loop n head level mark l).map Event.shape := by
  have hdescribe : (l.relabel σ).describe vars' k.label = (l.describe k.vars k.label).relabel σ :=
    Loop.describe_relabel hσ l hinit k.label
  have hchecks : ((k.withVars vars').checks n level (mark.relabel σ) (l.relabel σ)).map Event.shape =
      (k.checks n level mark l).map Event.shape := by
    simp only [checks, List.map_append]
    have hd : (l.relabel σ).describe (k.withVars vars').vars (k.withVars vars').label =
        (l.describe k.vars k.label).relabel σ := hdescribe
    rw [hd]
    exact congrArg₂ (· ++ ·) (congrArg₂ (· ++ ·) (shapes_position k n level mark l.body)
      (shapes_header k hσ _ l.body)) (shapes_between k level l.body)
  have hmapped : ((k.withVars vars').mapped n (head.relabel σ) level (mark.relabel σ)
      (l.relabel σ)).shape = (k.mapped n head level mark l).shape := by
    have hdimension := mark.dimension?_relabel (σ := σ)
    have hd : ((l.relabel σ).describe vars' k.label).shape = (l.describe k.vars k.label).shape := by
      rw [hdescribe, Descriptor.shape_relabel]
    simp only [mapped, MappedLoop.shape, withVars, hdimension, hd]
  have haccepted (b : Bool) : (if b then [] else [Event.accepted ((k.withVars vars').mapped n
        (head.relabel σ) level (mark.relabel σ) (l.relabel σ))]).map Event.shape =
      (if b then [] else [Event.accepted (k.mapped n head level mark l)]).map Event.shape := by
    cases b with
    | false => exact congrArg (fun l => [Event.accepted l]) hmapped
    | true => rfl
  unfold loop
  simp only [List.map_cons, List.map_append]
  rw [hchecks, Event.any_isRejection_of_shapes hchecks, haccepted]
  rfl

end

/-! ## The events of a kernel -/

section

variable {σ : Numbering} {vars' : VarTable} (k : Site)

namespace Stmt

/-- The first variables of declarations keep their types. -/
def KeepsFirsts (σ : Numbering) (vars vars' : VarTable) (s : Stmt) : Prop :=
  ∀ v ∈ s.firsts, v.KeepsType σ vars vars'

theorem KeepsFirsts.children {vars : VarTable} {s : Stmt} (h : s.KeepsFirsts σ vars vars') :
    ∀ t ∈ s.children, t.KeepsFirsts σ vars vars' := by
  intro t ht v hv
  refine h v ?_
  rw [firsts_eq]
  exact List.mem_append_right _ (List.mem_flatMap.mpr ⟨t, ht, hv⟩)

mutual

/-- The events of a statement do not depend on places and numbers. -/
theorem shapes_events (hσ : Function.Injective σ.vars) : ∀ (s : Stmt) (n : Nesting),
    s.KeepsFirsts σ k.vars vars' →
    ((s.relabel σ).events (k.withVars vars') n).map Event.shape = (s.events k n).map Event.shape
  | forLoop h i c u b, n, hs => by
    have hbelow := hs.children
    have hi := hbelow i (by simp [Stmt.children])
    have hc := hbelow c (by simp [Stmt.children])
    have hu := hbelow u (by simp [Stmt.children])
    have hb := hbelow b (by simp [Stmt.children])
    have hlevel := (forLoop h i c u b).level?_relabel (σ := σ)
    rw [relabel] at hlevel ⊢
    rw [events, events, hlevel]
    cases (forLoop h i c u b).level? with
    | none =>
      simp only [Option.map_none, List.map_append, shapes_events hσ i n hi,
        shapes_events hσ c n hc, shapes_events hσ u n hu, shapes_events hσ b n hb]
    | some m =>
      have hloop := Site.shapes_loop k n hσ h m.1 m.2 ⟨i, c, u, b⟩ hi
      simp only [Option.map_some, List.map_append, shapes_events hσ b _ hb]
      exact congrArg (· ++ _) hloop
  | block h ss, n, hs => by
    rw [relabel, events, events]
    exact shapes_eventsAll hσ ss n hs.children
  | ifThen h x t, n, hs => by
    rw [relabel, events, events]
    exact shapes_events hσ t n (hs.children t (by simp [Stmt.children]))
  | ifElse h x t e, n, hs => by
    rw [relabel, events, events, List.map_append, List.map_append,
      shapes_events hσ t n (hs.children t (by simp [Stmt.children])),
      shapes_events hσ e n (hs.children e (by simp [Stmt.children]))]
  | whileLoop h x b, n, hs => by
    rw [relabel, events, events]
    exact shapes_events hσ b n (hs.children b (by simp [Stmt.children]))
  | declaration _ _, _, _ | expression _ _, _, _ | returns _ _, _, _ | empty _, _, _ => rfl

theorem shapes_eventsAll (hσ : Function.Injective σ.vars) : ∀ (ss : List Stmt) (n : Nesting),
    (∀ s ∈ ss, s.KeepsFirsts σ k.vars vars') →
    (eventsAll (k.withVars vars') n (relabelAll σ ss)).map Event.shape =
      (eventsAll k n ss).map Event.shape
  | [], _, _ => rfl
  | s :: ss, n, h => by
    obtain ⟨hs, hss⟩ := List.forall_mem_cons.mp h
    rw [relabelAll, eventsAll, eventsAll, List.map_append, List.map_append,
      shapes_events hσ s n hs, shapes_eventsAll hσ ss n hss]

end

end Stmt

theorem Block.allStatements_relabel (b : Block) :
    (b.relabel σ).allStatements = b.allStatements.map (Stmt.relabel σ) := by
  rw [allStatements, allStatements, Stmt.statementsAll_eq, Stmt.statementsAll_eq, relabel,
    List.flatMap_map, List.map_flatMap]
  exact List.flatMap_congr fun s _ => s.statements_relabel σ

/-- The events of a kernel do not depend on places and numbers. -/
theorem Function.shapes_events {vars : VarTable} (hσ : Function.Injective σ.vars) (f : Function)
    (hf : ∀ s ∈ f.body.statements, s.KeepsFirsts σ vars vars') (label : String) :
    ((f.relabel σ).events vars' label).map Event.shape =
      (f.events vars label).map Event.shape := by
  have hbody : (f.relabel σ).body.allStatements = f.body.allStatements.map (Stmt.relabel σ) :=
    f.body.allStatements_relabel
  have hstatements : (f.relabel σ).body.statements = Stmt.relabelAll σ f.body.statements :=
    (Stmt.relabelAll_eq σ _).symm
  have hmisplaced : (f.body.allStatements.map (Stmt.relabel σ)).filterMap Stmt.misplaced? =
      (f.body.allStatements.filterMap Stmt.misplaced?).map fun l => (l.1, l.2.relabel σ) := by
    rw [List.filterMap_map, List.map_filterMap]
    exact congrArg (fun p => List.filterMap p f.body.allStatements) (funext Stmt.misplaced?_relabel)
  have hevents := Stmt.shapes_eventsAll ⟨f.name, vars, label⟩ hσ f.body.statements {} hf
  unfold events Site.outerLoop
  rw [hbody, hstatements, hmisplaced, Stmt.any_relabel (Stmt.isMappedTo_relabel _)]
  simp only [List.map_cons, List.map_append, List.cons_append]
  congr 2
  · congr 1
    · rw [Site.misplaced, Site.misplaced, List.map_map, List.map_map, List.map_map]
      rfl
    · split <;> rfl

theorem Function.isKernel_relabel (f : Function) : (f.relabel σ).isKernel = f.isKernel := by
  rw [isKernel, isKernel, relabel, List.any_map]
  rfl

end

/-! ## The check of a program -/

/-- The program with other numbers, and with another table of variables. -/
def Program.relabel (σ : Numbering) (vars' : VarTable) (p : Program) : Program :=
  ⟨p.functions.map (Function.relabel σ), vars', .none⟩

/-- The findings of a check do not depend on places and numbers. -/
theorem Program.shapes_classify (σ : Numbering) (vars' : VarTable)
    (hσ : Function.Injective σ.vars) (p : Program) (config : CheckConfig)
    (hp : ∀ f ∈ p.functions, ∀ s ∈ f.body.statements, s.KeepsFirsts σ p.vars vars') :
    ((p.relabel σ vars').classify config).events.map Event.shape =
      (p.classify config).events.map Event.shape := by
  have hkernels : (p.relabel σ vars').kernels = p.kernels.map (Function.relabel σ) := by
    have hkernel : Function.isKernel ∘ Function.relabel σ = Function.isKernel :=
      funext Function.isKernel_relabel
    rw [kernels, kernels, relabel, List.filter_map, hkernel]
  rw [classify_eq, classify_eq, CheckMode.map_cut Event.isRejection_shape,
    CheckMode.map_cut Event.isRejection_shape, hkernels, List.flatMap_map, List.map_flatMap,
    List.map_flatMap]
  refine congrArg config.mode.cut (List.flatMap_congr fun f hf => ?_)
  exact f.shapes_events hσ (hp f (List.mem_of_mem_filter hf)) config.label

/-! ## Reports -/

/-- The summary without the line of the loop. -/
def LoopSummary.unplaced (s : LoopSummary) : LoopSummary := { s with line := 0 }

/-- The reports say the same, but for places. -/
structure Report.Agrees (r r' : Report) : Prop where
  ok : r.ok = r'.ok
  loops : r.loops.map LoopSummary.unplaced = r'.loops.map LoopSummary.unplaced
  errors : r.errors.map (fun e => (e.violation, e.message)) =
    r'.errors.map fun e => (e.violation, e.message)

theorem MappedLoop.summary_shape (l : MappedLoop) (index : Expr) :
    l.shape.summary index.shape = (l.summary index).map LoopSummary.unplaced := by
  let σ : Numbering := .plain fun _ => 0
  have hcount : l.shape.descriptor.tripCount = l.descriptor.tripCount.map (Expr.relabel σ.vars) :=
    l.descriptor.tripCount_relabel σ
  have hvalue : l.shape.descriptor.valueAt index.shape =
      (l.descriptor.valueAt index).map (Expr.relabel σ.vars) := l.descriptor.valueAt_relabel σ index
  have hd : l.shape.descriptor = l.descriptor.relabel σ := rfl
  unfold summary
  dsimp only
  rw [hcount, hvalue]
  cases l.descriptor.tripCount with
  | error e => rfl
  | ok count =>
    cases l.descriptor.valueAt index with
    | error e => rfl
    | ok value =>
      refine congrArg Except.ok ?_
      simp only [hd, Descriptor.iteratorName_relabel, Descriptor.initText_relabel,
        Descriptor.boundText_relabel, Descriptor.updateOp?_relabel, Descriptor.stepText_relabel,
        Descriptor.direction?_relabel, Descriptor.isInclusive_relabel, Expr.text_relabel]
      rfl

namespace Classification

variable {c c' : Classification}

theorem errors_shape (es : List Event) :
    (⟨es.map Event.shape⟩ : Classification).errors =
      (⟨es⟩ : Classification).errors.map Rejection.unplaced := by
  rw [errors, errors, List.filterMap_map, List.map_filterMap]
  refine congrArg (fun p => List.filterMap p es) (funext fun e => ?_)
  cases e <;> rfl

theorem loops_shape (es : List Event) :
    (⟨es.map Event.shape⟩ : Classification).loops =
      (⟨es⟩ : Classification).loops.map MappedLoop.shape := by
  rw [loops, loops, List.filterMap_map, List.map_filterMap]
  refine congrArg (fun p => List.filterMap p es) (funext fun e => ?_)
  cases e <;> rfl

/-- Findings that are the same but for places and numbers make reports that say the same. -/
theorem report_agrees (h : c.events.map Event.shape = c'.events.map Event.shape)
    (config : CheckConfig) {index index' : Expr} (hindex : index.shape = index'.shape) :
    (c.report config index).Agrees (c'.report config index') := by
  have herrors : c.errors.map Rejection.unplaced = c'.errors.map Rejection.unplaced := by
    rw [← errors_shape, ← errors_shape, h]
  have hloops : c.loops.map MappedLoop.shape = c'.loops.map MappedLoop.shape := by
    rw [← loops_shape, ← loops_shape, h]
  have hsummaries (ls : List MappedLoop) (index : Expr) :
      (ls.filterMap fun l => (l.summary index).toOption).map LoopSummary.unplaced =
        (ls.map MappedLoop.shape).filterMap fun l => (l.summary index.shape).toOption := by
    rw [List.map_filterMap, List.filterMap_map]
    refine congrArg (fun p => List.filterMap p ls) (funext fun l => ?_)
    rw [Function.comp, MappedLoop.summary_shape]
    cases l.summary index <;> rfl
  have hmessages (rs : List Rejection) : rs.map (fun e => (e.violation, e.message)) =
      (rs.map Rejection.unplaced).map fun e => (e.violation, e.message) := by
    rw [List.map_map]
    rfl
  refine ⟨?_, ?_, ?_⟩
  · have hempty := congrArg List.isEmpty herrors
    rwa [List.isEmpty_map, List.isEmpty_map] at hempty
  · exact (hsummaries _ _).trans ((hindex ▸ hloops ▸ rfl : _ = _).trans (hsummaries _ _).symm)
  · exact (hmessages _).trans ((congrArg _ herrors).trans (hmessages _).symm)

end Classification

end LoopNest
