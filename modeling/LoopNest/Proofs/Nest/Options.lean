import Mathlib.Data.List.Forall2
import LoopNest.Proofs.Nest.Accepted
import LoopNest.Proofs.Nest.Relabel

/-!
# What is reported and what is found

A configuration says how far a check goes on. All else in it says how the findings are shown: the
label in front of messages, the name of the index, whether diagnostics are printed. Where these go
is up to a sink. Nothing of this has an effect on what is found.

* `Event.withLabel`: an event as a check with another label notes it.
* `Function.events_withLabel`: a kernel has the same events, with that label, under another label
  and with another table of variables in which the declared ones keep their types.
* `Program.classify_withLabel`: so it is for the check of a program.
* `Rejection.message_eq`: a message is the text of the broken rule behind the mark of the label.
* `Classification.deliver`: what has become of a sink at the end of a check.
* `Program.classify_options`: configurations of one mode find the same, and a sink receives one
  error for each broken rule or nothing at all.
-/

namespace LoopNest

universe u

/-! ## Other labels -/

def Rejection.withLabel (label : String) (r : Rejection) : Rejection := { r with label }

def Descriptor.withLabel (label : String) (d : Descriptor) : Descriptor :=
  { d with failure := d.failure.map (Rejection.withLabel label) }

def MappedLoop.withLabel (label : String) (l : MappedLoop) : MappedLoop :=
  { l with descriptor := l.descriptor.withLabel label }

/-- The event as a check with that label notes it. -/
def Event.withLabel (label : String) : Event → Event
  | described d => described (d.withLabel label)
  | rejected kernel r notes => rejected kernel (r.withLabel label) notes
  | accepted l => accepted (l.withLabel label)
  | entered kernel => entered kernel
  | passed level span => passed level span

/-- The same kernel with another table of variables and under another label. -/
def Site.under (vars : VarTable) (label : String) (k : Site) : Site := { k with vars, label }

section

variable {label : String} {vars' : VarTable}

theorem Descriptor.withLabel_of_isValid {d : Descriptor} (h : d.isValid = true) :
    d.withLabel label = d := by
  have hnone : d.failure = none := Option.isNone_iff_eq_none.mp h
  unfold withLabel
  rw [hnone, Option.map_none, ← hnone]

theorem iteratorOf_of_keepsFirsts {vars : VarTable} {init : Stmt}
    (h : init.KeepsFirsts (.all id) vars vars') : iteratorOf vars' init = iteratorOf vars init := by
  have hfirst : ∀ d ∈ ((init.declarators?).getD []).take 1,
      vars'.type? d.var.id = vars.type? d.var.id := by
    intro d hd
    refine h d.var ?_
    rw [Stmt.firsts_eq]
    exact List.mem_append_left _ (List.mem_map_of_mem hd)
  unfold iteratorOf
  generalize init.declarators? = ds at hfirst
  match ds, hfirst with
  | none, _ | some [], _ | some (_ :: _ :: _), _ => rfl
  | some [d], hfirst =>
    have htype := hfirst d List.mem_cons_self
    simp only [htype]

theorem Loop.describe_withLabel (l : Loop) {vars : VarTable}
    (h : l.init.KeepsFirsts (.all id) vars vars') (first : String) :
    (l.describe vars first).withLabel label = l.describe vars' label := by
  unfold describe
  rw [iteratorOf_of_keepsFirsts h]
  cases iteratorOf vars l.init with
  | error b => rfl
  | ok d =>
    cases hcomparison : comparisonOf d.var.name l.check with
    | error b =>
      simp only [hcomparison]
      rfl
    | ok c =>
      cases hbound : boundOf d.var c.2 with
      | error b =>
        simp only [hcomparison, hbound]
        rfl
      | ok bound =>
        cases hstep : stepOf d.var l.update with
        | error b =>
          simp only [hcomparison, hbound, hstep]
          rfl
        | ok step =>
          simp only [hcomparison, hbound, hstep]
          rfl

namespace Event

theorem rejection?_withLabel (e : Event) :
    (e.withLabel label).rejection? = e.rejection?.map (Rejection.withLabel label) := by
  cases e <;> rfl

theorem isRejection_withLabel (e : Event) : (e.withLabel label).isRejection = e.isRejection := by
  rw [isRejection, isRejection, rejection?_withLabel, Option.isSome_map]

theorem loop?_withLabel (e : Event) :
    (e.withLabel label).loop? = e.loop?.map (MappedLoop.withLabel label) := by
  cases e <;> rfl

theorem any_isRejection_withLabel (es : List Event) :
    (es.map (withLabel label)).any isRejection = es.any isRejection := by
  rw [List.any_map]
  exact congrArg es.any (funext isRejection_withLabel)

end Event

/-! ## The events of a loop -/

namespace Site

variable (k : Site) (n : Nesting) (level : Level)

theorem position_withLabel (mark : Attribute) (body : Stmt) :
    (k.position n level mark body).map (Event.withLabel label) =
      (k.under vars' label).position n level mark body := by
  unfold position
  cases level with
  | outer =>
    dsimp only
    split
    · rfl
    · split <;> rfl
  | inner =>
    dsimp only
    split <;> rfl

theorem initializer_withLabel (d : Declarator) :
    (k.initializer d).map (Event.withLabel label) = (k.under vars' label).initializer d := by
  unfold initializer
  split <;> rfl

theorem shadowing_withLabel (d : Declarator) (body : Stmt) :
    (k.shadowing d body).map (Event.withLabel label) =
      (k.under vars' label).shadowing d body := by
  unfold shadowing
  split <;> rfl

theorem header_withLabel (d : Descriptor) (body : Stmt) :
    (k.header d body).map (Event.withLabel label) =
      (k.under vars' label).header (d.withLabel label) body := by
  have hfailure : (d.withLabel label).failure = d.failure.map (Rejection.withLabel label) := rfl
  have hiterator : (d.withLabel label).iterator = d.iterator := rfl
  unfold header
  rw [List.map_cons, hfailure, hiterator]
  apply congrArg
  cases d.failure with
  | some r => rfl
  | none =>
    cases d.iterator with
    | none => rfl
    | some iterator =>
      dsimp only [Option.map_none]
      rw [List.map_append, initializer_withLabel, shadowing_withLabel]

theorem between_withLabel (body : Stmt) :
    (k.between level body).map (Event.withLabel label) =
      (k.under vars' label).between level body := by
  unfold between
  split
  · unfold rejectionsBetween
    rw [List.map_map]
    rfl
  · rfl

variable {k} {l : Loop}

theorem checks_withLabel (hinit : l.init.KeepsFirsts (.all id) k.vars vars') (mark : Attribute) :
    (k.checks n level mark l).map (Event.withLabel label) =
      (k.under vars' label).checks n level mark l := by
  have hdescribe : (l.describe k.vars k.label).withLabel label =
      l.describe (k.under vars' label).vars (k.under vars' label).label :=
    l.describe_withLabel hinit k.label
  unfold checks
  rw [List.map_append, List.map_append, position_withLabel, header_withLabel, between_withLabel,
    hdescribe]

theorem loop_withLabel (hinit : l.init.KeepsFirsts (.all id) k.vars vars') (head : StmtHead)
    (mark : Attribute) :
    (k.loop n head level mark l).map (Event.withLabel label) =
      (k.under vars' label).loop n head level mark l := by
  have hmapped : (k.mapped n head level mark l).withLabel label =
      (k.under vars' label).mapped n head level mark l := by
    unfold mapped MappedLoop.withLabel
    rw [l.describe_withLabel hinit]
    rfl
  have hrejected : ((k.under vars' label).checks n level mark l).any Event.isRejection =
      (k.checks n level mark l).any Event.isRejection := by
    rw [← checks_withLabel n level hinit, Event.any_isRejection_withLabel]
  unfold loop
  rw [hrejected, List.cons_append, List.cons_append, List.map_cons, List.map_append,
    checks_withLabel n level hinit]
  split
  · rfl
  · rw [← hmapped]
    rfl

end Site

/-! ## The events of a kernel -/

namespace Stmt

variable {k : Site}

mutual

theorem events_withLabel : ∀ (s : Stmt) (n : Nesting), s.KeepsFirsts (.all id) k.vars vars' →
    (s.events k n).map (Event.withLabel label) = s.events (k.under vars' label) n
  | forLoop h i c u b, n, hs => by
    have hi := hs.children i (by simp [children])
    have hc := hs.children c (by simp [children])
    have hu := hs.children u (by simp [children])
    have hb := hs.children b (by simp [children])
    rw [events, events]
    cases (forLoop h i c u b).level? with
    | none =>
      simp only [List.map_append, events_withLabel i n hi, events_withLabel c n hc,
        events_withLabel u n hu, events_withLabel b n hb]
    | some m =>
      simp only [List.map_append, events_withLabel b _ hb]
      rw [Site.loop_withLabel (l := ⟨i, c, u, b⟩) n m.1 hi h m.2]
  | block h ss, n, hs => by
    rw [events, events]
    exact eventsAll_withLabel ss n hs.children
  | ifThen h x t, n, hs => by
    rw [events, events]
    exact events_withLabel t n (hs.children t (by simp [children]))
  | ifElse h x t e, n, hs => by
    rw [events, events, List.map_append, events_withLabel t n (hs.children t (by simp [children])),
      events_withLabel e n (hs.children e (by simp [children]))]
  | whileLoop h x b, n, hs => by
    rw [events, events]
    exact events_withLabel b n (hs.children b (by simp [children]))
  | declaration _ _, _, _ | expression _ _, _, _ | returns _ _, _, _ | empty _, _, _ => rfl

theorem eventsAll_withLabel : ∀ (ss : List Stmt) (n : Nesting),
    (∀ s ∈ ss, s.KeepsFirsts (.all id) k.vars vars') →
    (eventsAll k n ss).map (Event.withLabel label) = eventsAll (k.under vars' label) n ss
  | [], _, _ => rfl
  | s :: ss, n, hs => by
    obtain ⟨hs, hss⟩ := List.forall_mem_cons.mp hs
    rw [eventsAll, eventsAll, List.map_append, events_withLabel s n hs,
      eventsAll_withLabel ss n hss]

end

end Stmt

theorem Function.events_withLabel (f : Function) {vars : VarTable}
    (hf : ∀ s ∈ f.body.statements, s.KeepsFirsts (.all id) vars vars') (first : String) :
    (f.events vars first).map (Event.withLabel label) = f.events vars' label := by
  have hmisplaced (marks : List (Level × Attribute)) :
      (Site.misplaced ⟨f.name, vars, first⟩ marks).map (Event.withLabel label) =
        Site.misplaced ⟨f.name, vars', label⟩ marks := by
    unfold Site.misplaced
    rw [List.map_map]
    rfl
  have houter : (Site.outerLoop ⟨f.name, vars, first⟩ f).map (Event.withLabel label) =
      Site.outerLoop ⟨f.name, vars', label⟩ f := by
    unfold Site.outerLoop
    split <;> rfl
  unfold events
  rw [List.map_append, List.map_append, List.map_cons, hmisplaced, houter,
    Stmt.eventsAll_withLabel f.body.statements {} hf]
  rfl

/-- A check with another label notes the same events, with that label. So does a check with another
table of variables in which the declared ones have the same types. -/
theorem Program.classify_withLabel {p p' : Program} (hfunctions : p'.functions = p.functions)
    (hvars : ∀ f ∈ p.functions, ∀ s ∈ f.body.statements, s.KeepsFirsts (.all id) p.vars p'.vars)
    {config config' : CheckConfig} (h : config.mode = config'.mode) :
    (p.classify config).events.map (Event.withLabel config'.label) =
      (p'.classify config').events := by
  have hevents : (p.kernels.flatMap fun f => f.events p.vars config.label).map
      (Event.withLabel config'.label) =
        p'.kernels.flatMap fun f => f.events p'.vars config'.label := by
    unfold kernels
    rw [hfunctions, List.map_flatMap]
    exact List.flatMap_congr fun f hf =>
      f.events_withLabel (hvars f (List.mem_of_mem_filter hf)) config.label
  rw [classify_eq, classify_eq]
  show (config.mode.cut _).map _ = config'.mode.cut _
  rw [CheckMode.map_cut Event.isRejection_withLabel, hevents, h]

theorem Program.classify_withLabel_self (p : Program) {config config' : CheckConfig}
    (h : config.mode = config'.mode) :
    (p.classify config).events.map (Event.withLabel config'.label) =
      (p.classify config').events :=
  classify_withLabel rfl (fun _ _ _ _ _ _ => rfl) h

end

/-! ## Verdicts -/

namespace Classification

variable {label : String}

theorem errors_withLabel (es : List Event) :
    (⟨es.map (Event.withLabel label)⟩ : Classification).errors =
      (⟨es⟩ : Classification).errors.map (Rejection.withLabel label) := by
  unfold errors
  rw [List.filterMap_map, List.map_filterMap]
  exact congrArg (List.filterMap · es) (funext Event.rejection?_withLabel)

theorem loops_withLabel (es : List Event) :
    (⟨es.map (Event.withLabel label)⟩ : Classification).loops =
      (⟨es⟩ : Classification).loops.map (MappedLoop.withLabel label) := by
  unfold loops
  rw [List.filterMap_map, List.map_filterMap]
  exact congrArg (List.filterMap · es) (funext Event.loop?_withLabel)

end Classification

namespace Program

variable (p : Program) {config config' : CheckConfig}

theorem errors_classify (h : config.mode = config'.mode) :
    (p.classify config').errors =
      (p.classify config).errors.map (Rejection.withLabel config'.label) := by
  rw [← Classification.errors_withLabel, p.classify_withLabel_self h]

/-- An accepted loop breaks no rule, so there is no label in it. -/
theorem loops_classify (h : config.mode = config'.mode) :
    (p.classify config').loops = (p.classify config).loops := by
  have hsame (l : MappedLoop) (hl : l ∈ (p.classify config).loops) :
      l.withLabel config'.label = l := by
    have hready := ready_of_mem_loops hl
    unfold MappedLoop.withLabel
    rw [Descriptor.withLabel_of_isValid hready.valid]
  calc (p.classify config').loops
      = (p.classify config).loops.map (MappedLoop.withLabel config'.label) := by
        rw [← Classification.loops_withLabel, p.classify_withLabel_self h]
    _ = (p.classify config).loops.map id := List.map_congr_left hsame
    _ = (p.classify config).loops := List.map_id _

theorem label_of_mem_errors {r : Rejection} (hr : r ∈ (p.classify config).errors) :
    r.label = config.label := by
  have hself := p.errors_classify (rfl : config.mode = config.mode)
  rw [hself] at hr
  obtain ⟨r', -, rfl⟩ := List.mem_map.mp hr
  rfl

end Program

/-! ## Messages -/

/-- What stands in front of the messages under a label. -/
def labelMark (label : String) : String := if label.isEmpty then "" else s!"[{label}] "

theorem Rejection.message_eq (r : Rejection) :
    r.message = labelMark r.label ++ r.violation.message := by
  unfold message labelMark
  by_cases h : r.label.isEmpty = true
  · rw [if_pos h, if_pos h, String.empty_append]
  · rw [if_neg h, if_neg h]
    simp only [toString, String.append_assoc]

/-- The same rule is broken at the same place, and the messages differ in the marks of the two
labels alone. -/
structure Rejection.SameUnder (label label' : String) (r r' : Rejection) : Prop where
  violation : r.violation = r'.violation
  span : r.span = r'.span
  message : ∃ text, r.message = labelMark label ++ text ∧ r'.message = labelMark label' ++ text

theorem Rejection.sameUnder_withLabel (r : Rejection) (label : String) :
    r.SameUnder r.label label (r.withLabel label) :=
  ⟨rfl, rfl, r.violation.message, r.message_eq, (r.withLabel label).message_eq⟩

theorem Program.errors_sameUnder (p : Program) {config config' : CheckConfig}
    (h : config.mode = config'.mode) :
    List.Forall₂ (Rejection.SameUnder config.label config'.label) (p.classify config).errors
      (p.classify config').errors := by
  rw [p.errors_classify h, List.forall₂_map_right_iff]
  apply List.forall₂_same.mpr
  intro r hr
  rw [← p.label_of_mem_errors hr]
  exact r.sameUnder_withLabel config'.label

/-! ## Sinks -/

/-- The diagnostic is an error that says what the rejection says. -/
structure Diagnostic.Reports (d : Diagnostic) (r : Rejection) : Prop where
  severity : d.severity = .error
  message : d.message = r.message
  span : d.span = r.span

theorem Event.reports (e : Event) :
    Option.Rel Diagnostic.Reports e.diagnostic? e.rejection? := by
  cases e with
  | entered _ | passed _ _ | accepted _ => exact .none
  | rejected kernel r notes => exact .some ⟨rfl, rfl, rfl⟩
  | described d =>
    show Option.Rel _ (d.failure.map fun r => r.diagnostic []) d.failure
    cases d.failure with
    | none => exact .none
    | some r => exact .some ⟨rfl, rfl, rfl⟩

namespace Classification

variable {σ : Type u} (c : Classification) (config : CheckConfig)

/-- What has become of a sink at the end of a check, for a sink that `receive`s diagnostics one
by one: those of the events in their order, if diagnostics are printed. -/
def deliver (receive : σ → Diagnostic → σ) (s : σ) : σ :=
  c.events.foldl (fun s e => if config.printErrors then e.diagnostic?.elim s (receive s) else s) s

theorem deliver_eq (receive : σ → Diagnostic → σ) (s : σ) :
    c.deliver config receive s = (c.diagnostics config).foldl receive s := by
  unfold deliver diagnostics
  cases config.printErrors with
  | false =>
    simp only [Bool.false_eq_true, if_false, List.foldl_nil]
    induction c.events with
    | nil => rfl
    | cons e es ih => exact ih
  | true =>
    simp only [if_true]
    induction c.events generalizing s with
    | nil => rfl
    | cons e es ih =>
      rw [List.foldl_cons, ih]
      cases he : e.diagnostic? with
      | none => rw [List.filterMap_cons_none he, Option.elim_none]
      | some d => rw [List.filterMap_cons_some he, Option.elim_some, List.foldl_cons]

/-- A bag has all diagnostics of the check, in their order. -/
theorem deliver_bag :
    c.deliver config (fun ds d => ds ++ Sink.bag.collected d) [] = c.diagnostics config := by
  have hbag (ds es : List Diagnostic) :
      es.foldl (fun ds d => ds ++ Sink.bag.collected d) ds = ds ++ es := by
    induction es generalizing ds with
    | nil => rw [List.foldl_nil, List.append_nil]
    | cons d es ih =>
      rw [List.foldl_cons, ih, List.append_assoc]
      rfl
  rw [deliver_eq, hbag, List.nil_append]

/-- A sink receives one error for each broken rule, or nothing. -/
theorem deliver_reports : ∃ ds, List.Forall₂ Diagnostic.Reports ds c.errors ∧
    ∀ {σ : Type u} (receive : σ → Diagnostic → σ) (s : σ),
      c.deliver config receive s = if config.printErrors then ds.foldl receive s else s := by
  refine ⟨c.events.filterMap Event.diagnostic?, ?_, ?_⟩
  · have hall : List.Forall₂ (fun e e' : Event => Option.Rel Diagnostic.Reports e.diagnostic?
        e'.rejection?) c.events c.events := List.forall₂_same.mpr fun e _ => e.reports
    exact List.rel_filterMap (fun _ _ h => h) hall
  · intro σ receive s
    rw [deliver_eq, diagnostics]
    split <;> rfl

end Classification

/-! ## Options -/

/-- **Reporting options never influence the verdict.** Two configurations of one mode come to the
same result: the same loops are accepted, and the same rules are broken at the same places, in
messages that differ in nothing but the label in front. Whatever sink there is receives one error
for each broken rule in their order, or nothing if they are not to be printed. -/
theorem Program.classify_options (p : Program) {config config' : CheckConfig}
    (h : config.mode = config'.mode) :
    (p.classify config).isOk = (p.classify config').isOk ∧
      (p.classify config).loops = (p.classify config').loops ∧
      List.Forall₂ (Rejection.SameUnder config.label config'.label) (p.classify config).errors
        (p.classify config').errors ∧
      ∃ ds, List.Forall₂ Diagnostic.Reports ds (p.classify config).errors ∧
        ∀ {σ : Type u} (receive : σ → Diagnostic → σ) (s : σ),
          (p.classify config).deliver config receive s =
            if config.printErrors then ds.foldl receive s else s := by
  have hok : (p.classify config').isOk = (p.classify config).isOk := by
    rw [Classification.isOk, p.errors_classify h, List.isEmpty_map]
    rfl
  exact ⟨hok.symm, (p.loops_classify h).symm, p.errors_sameUnder h,
    (p.classify config).deliver_reports config⟩

/-- Two rejections under a label, printed, and under none, silent, with a loop that is accepted
under both. -/
theorem Program.classify_options_labelled :
    ∃ config config' : CheckConfig, config.mode = config'.mode ∧ config.printErrors = true ∧
      config'.printErrors = false ∧ config.label = "f.cl" ∧ config'.label = "" ∧
      ∃ p, Program.read "@kernel void f(int n) { @outer for (int i; i < n; i++)
          @inner for (int j = 0; j < n; j += 2) ; @inner for (int k = 0; k < n; k++) ; }" = .ok p ∧
        (p.classify config).loops ≠ [] ∧ (p.classify config).errors.length = 2 ∧
        (p.classify config).isOk = (p.classify config').isOk ∧
        (p.classify config).loops = (p.classify config').loops ∧
        List.Forall₂ (Rejection.SameUnder config.label config'.label) (p.classify config).errors
          (p.classify config').errors ∧
        ∃ ds, List.Forall₂ Diagnostic.Reports ds (p.classify config).errors ∧
          ∀ {σ : Type} (receive : σ → Diagnostic → σ) (s : σ),
            (p.classify config).deliver config receive s =
              if config.printErrors then ds.foldl receive s else s := by
  refine ⟨{ mode := .batch, label := "f.cl", flatIndex := "id" },
    { mode := .batch, printErrors := false }, rfl, rfl, rfl, rfl, rfl, ?_⟩
  refine (exists_of_read (P := fun p =>
    !(p.classify { mode := .batch, label := "f.cl", flatIndex := "id" }).loops.isEmpty &&
      (p.classify { mode := .batch, label := "f.cl", flatIndex := "id" }).errors.length == 2)
    ?_).imp fun p h => ⟨h.1, ?_⟩
  · decide +kernel
  · obtain ⟨hloops, herrors⟩ := Bool.and_eq_true_iff.mp h.2
    exact ⟨by simpa using hloops, beq_iff_eq.mp herrors, p.classify_options rfl⟩

end LoopNest
