import LoopNest.Nest

/-!
# The events of a check

A check that never stops notes events that depend on the kernel alone: `Function.events` lists
them. A check that stops at the first rejection notes the same events up to that rejection.

* `CheckMode.Finds`: a step of a check puts these events behind what is found already, up to the
  first rejection if the mode is to stop there.
* `CheckMode.Finds.comp`: two steps, one after the other, find the events of both.
* `Stmt.visit_finds`: the walk through a statement finds `Stmt.events`.
* `Function.classify_eq`, `Program.classify_eq`: a check finds the listed events, cut by its
  mode.
-/

namespace LoopNest

/-! ## Up to the first rejection -/

/-- The events up to the first rejection, with it. -/
def Event.upToRejection : List Event → List Event
  | [] => []
  | e :: es => if e.isRejection then [e] else e :: Event.upToRejection es

/-- What a check in that mode notes of the events. -/
def CheckMode.cut (mode : CheckMode) (es : List Event) : List Event :=
  match mode with
  | .failFast => Event.upToRejection es
  | .batch => es

attribute [local simp] Event.upToRejection

theorem Event.upToRejection_eq_self {es : List Event} (h : es.any isRejection = false) :
    upToRejection es = es := by
  induction es with
  | nil => rfl
  | cons e es ih =>
    rw [List.any_cons, Bool.or_eq_false_iff] at h
    simp [h.1, ih h.2]

theorem Event.upToRejection_prefix (es : List Event) : upToRejection es <+: es := by
  induction es with
  | nil => exact List.prefix_rfl
  | cons e es ih =>
    rw [upToRejection]
    split
    · exact ⟨es, rfl⟩
    · exact List.cons_prefix_cons.mpr ⟨rfl, ih⟩

theorem Event.upToRejection_append (es fs : List Event) :
    upToRejection (es ++ fs) =
      if es.any isRejection then upToRejection es else es ++ upToRejection fs := by
  induction es with
  | nil => rfl
  | cons e es ih =>
    by_cases he : e.isRejection
    · simp [he]
    · by_cases hes : es.any isRejection <;> simp_all

theorem Event.any_upToRejection (es : List Event) :
    (upToRejection es).any isRejection = es.any isRejection := by
  induction es with
  | nil => rfl
  | cons e es ih =>
    by_cases he : e.isRejection
    · simp [he]
    · simp [he, ih]

theorem CheckMode.cut_prefix (mode : CheckMode) (es : List Event) : mode.cut es <+: es := by
  cases mode with
  | failFast => exact Event.upToRejection_prefix es
  | batch => exact List.prefix_rfl

theorem CheckMode.any_cut (mode : CheckMode) (es : List Event) :
    (mode.cut es).any Event.isRejection = es.any Event.isRejection := by
  cases mode with
  | failFast => exact Event.any_upToRejection es
  | batch => rfl

/-- Cutting goes by what is a rejection alone, whatever else is changed in the events. -/
theorem CheckMode.map_cut {g : Event → Event} (hg : ∀ e, (g e).isRejection = e.isRejection)
    (mode : CheckMode) (es : List Event) : (mode.cut es).map g = mode.cut (es.map g) := by
  cases mode with
  | batch => rfl
  | failFast =>
    show (Event.upToRejection es).map g = Event.upToRejection (es.map g)
    induction es with
    | nil => rfl
    | cons e es ih =>
      rw [List.map_cons, Event.upToRejection, Event.upToRejection, hg, ← ih]
      split <;> rfl

/-- Cutting two lists of events behind each other: the second one counts if the mode does not
stop in the first one. -/
theorem CheckMode.cut_append (mode : CheckMode) (es fs : List Event) :
    mode.cut (es ++ fs) =
      if mode == .failFast && es.any Event.isRejection then mode.cut es
      else mode.cut es ++ mode.cut fs := by
  cases mode with
  | failFast =>
    rw [cut, Event.upToRejection_append]
    by_cases h : es.any Event.isRejection
    · simp [cut, h]
    · simp [cut, h, Event.upToRejection_eq_self (Bool.eq_false_iff.mpr h)]
  | batch => rfl

/-! ## What is found so far -/

namespace Classification

@[simp] theorem errors_merge (c d : Classification) :
    (c.merge d).errors = c.errors ++ d.errors := by
  simp [merge, errors]

theorem merge_assoc (c d e : Classification) : (c.merge d).merge e = c.merge (d.merge e) := by
  simp [merge]

theorem merge_nil (c : Classification) : c.merge ⟨[]⟩ = c := by
  simp [merge]

theorem errors_eq_nil_iff (es : List Event) :
    (⟨es⟩ : Classification).errors = [] ↔ es.any Event.isRejection = false := by
  induction es with
  | nil => simp [errors]
  | cons e es ih =>
    cases h : e.rejection? <;> simp_all [errors, Event.isRejection]

theorem errors_ne_nil {es : List Event} (h : es.any Event.isRejection = true) :
    (⟨es⟩ : Classification).errors ≠ [] := by
  intro hnil
  rw [errors_eq_nil_iff, h] at hnil
  cases hnil

theorem not_isOk (es : List Event) :
    (!(⟨es⟩ : Classification).isOk) = es.any Event.isRejection := by
  by_cases h : es.any Event.isRejection
  · simp [isOk, h, errors_ne_nil h]
  · have hnil := (errors_eq_nil_iff es).mpr (Bool.eq_false_iff.mpr h)
    simp [isOk, h, hnil]

end Classification

theorem CheckMode.stops_merge {mode : CheckMode} {c : Classification}
    (hc : mode.stops c = false) (es : List Event) :
    mode.stops (c.merge ⟨mode.cut es⟩) = (mode == .failFast && es.any Event.isRejection) := by
  cases mode with
  | batch => rfl
  | failFast =>
    have hc' : c.events.any Event.isRejection = false := by
      rw [← Classification.not_isOk]
      exact hc
    have h := Classification.not_isOk (c.events ++ CheckMode.failFast.cut es)
    rw [List.any_append, hc', CheckMode.any_cut] at h
    simpa [stops, Classification.merge] using h

/-! ## Steps of a check -/

namespace CheckMode

/-- The step puts the events behind what is found already, up to the first rejection if the
mode is to stop there. Nothing is said of a check that is to stop before the step. -/
def Finds (mode : CheckMode) (step : Classification → Classification) (es : List Event) : Prop :=
  ∀ c, mode.stops c = false → step c = c.merge ⟨mode.cut es⟩

variable {mode : CheckMode} {step next : Classification → Classification} {es fs : List Event}

theorem goOn_of_stopped {c : Classification} (h : mode.stops c = true) : mode.goOn next c = c := by
  simp [goOn, h]

theorem goOn_of_not_stopped {c : Classification} (h : mode.stops c = false) :
    mode.goOn next c = next c := by
  simp [goOn, h]

theorem Finds.goOn (h : mode.Finds next es) : mode.Finds (mode.goOn next) es := by
  intro c hc
  rw [goOn_of_not_stopped hc]
  exact h c hc

theorem finds_id : mode.Finds (fun c => c) [] := by
  intro c _
  have hnil : mode.cut [] = [] := by cases mode <;> rfl
  rw [hnil, Classification.merge_nil]

theorem finds_add (e : Event) : mode.Finds (fun c => c.add e) [e] := by
  intro c _
  have hone : mode.cut [e] = [e] := by
    cases mode with
    | batch => rfl
    | failFast => simp [cut]
  rw [hone]
  rfl

theorem Finds.ite {p : Prop} [Decidable p] (hs : mode.Finds step es) (hn : mode.Finds next fs) :
    mode.Finds (fun c => if p then step c else next c) (if p then es else fs) := by
  intro c hc
  by_cases h : p
  · simpa only [if_pos h] using hs c hc
  · simpa only [if_neg h] using hn c hc

/-- Two steps, one after the other, find the events of both. If the first one may reject
something, then the second one has to leave a check alone that is to stop. -/
theorem Finds.comp (hs : mode.Finds step es) (hn : mode.Finds next fs)
    (idle : es.any Event.isRejection = true → ∀ c, mode.stops c = true → next c = c) :
    mode.Finds (fun c => next (step c)) (es ++ fs) := by
  intro c hc
  have hstop := stops_merge hc es
  show next (step c) = _
  rw [hs c hc, cut_append]
  by_cases h : (mode == .failFast && es.any Event.isRejection) = true
  · rw [if_pos h, idle (Bool.and_eq_true_iff.mp h).2 _ (hstop.trans h)]
  · rw [if_neg h, hn _ (hstop.trans (Bool.eq_false_iff.mpr h)), Classification.merge_assoc]
    rfl

theorem Finds.comp_goOn (hs : mode.Finds step es) (hn : mode.Finds next fs) :
    mode.Finds (fun c => mode.goOn next (step c)) (es ++ fs) :=
  hs.comp hn.goOn fun _ _ => goOn_of_stopped

/-- A step behind an event that rejects nothing. -/
theorem Finds.after {e : Event} (he : e.isRejection = false) (hn : mode.Finds next fs) :
    mode.Finds (fun c => next (c.add e)) (e :: fs) :=
  (finds_add e).comp hn fun h => by simp [he] at h

theorem accept_of_rejection (c : Classification) (l : MappedLoop)
    (h : es.any Event.isRejection = true) :
    Walk.accept c.errors.length l (c.merge ⟨es⟩) = c.merge ⟨es⟩ := by
  have hne := Classification.errors_ne_nil h
  simp [Walk.accept, hne]

theorem accept_of_no_rejection (c : Classification) (l : MappedLoop)
    (h : es.any Event.isRejection = false) :
    Walk.accept c.errors.length l (c.merge ⟨es⟩) = (c.merge ⟨es⟩).add (.accepted l) := by
  have hnil := (Classification.errors_eq_nil_iff es).mpr h
  simp [Walk.accept, hnil]

/-- The loop is accepted if the step before finds nothing to reject. Counting the errors tells
this in either mode, since no step takes an error back. -/
theorem Finds.accept (hs : mode.Finds step es) (l : MappedLoop) :
    mode.Finds (fun c => mode.goOn (Walk.accept c.errors.length l) (step c))
      (es ++ if es.any Event.isRejection then [] else [.accepted l]) := by
  intro c hc
  have hstop := stops_merge hc es
  have hcut := any_cut mode es
  show mode.goOn _ (step c) = _
  rw [hs c hc]
  by_cases h : es.any Event.isRejection = true
  · rw [if_pos h, List.append_nil, CheckMode.goOn, accept_of_rejection c l (hcut.trans h),
      ite_self]
  · have hes : es.any Event.isRejection = false := Bool.eq_false_iff.mpr h
    have hgo : mode.stops (c.merge ⟨mode.cut es⟩) = false := by
      rw [hstop, hes, Bool.and_false]
    have hone : (c.merge ⟨mode.cut es⟩).add (.accepted l) = _ :=
      finds_add (.accepted l) _ hgo
    rw [if_neg h, goOn_of_not_stopped hgo, accept_of_no_rejection c l (hcut.trans hes), hone,
      cut_append, hes, Bool.and_false, Classification.merge_assoc]
    rfl

end CheckMode

/-! ## The events of a loop -/

namespace Site

def rejection (k : Site) (v : Violation) (span : Span) (notes : List String := []) : Event :=
  .rejected k.kernel ⟨v, span, k.label⟩ notes

def position (k : Site) (n : Nesting) (level : Level) (mark : Attribute) (body : Stmt) :
    List Event :=
  match level with
  | .outer =>
    if n.inInner then [k.rejection .outerInsideInner mark.span]
    else if !n.inOuter && !body.statements.any (Stmt.isMappedTo .inner) then
      [k.rejection .missingInnerLoop mark.span]
    else []
  | .inner => if n.inOuter then [] else [k.rejection .innerOutsideOuter mark.span]

def initializer (k : Site) (d : Declarator) : List Event :=
  if d.value.isNone then [k.rejection (.missingInitializer d.var.name) d.span] else []

def shadowing (k : Site) (d : Declarator) (body : Stmt) : List Event :=
  match body.shadowing? d.var with
  | some other =>
    [k.rejection (.shadowedIterator d.var.name) other.span
      [s!"[{d.var.name}] is declared at {d.span.start.text}"]]
  | none => []

def header (k : Site) (d : Descriptor) (body : Stmt) : List Event :=
  .described d ::
    match d.failure, d.iterator with
    | none, some iterator => k.initializer iterator ++ k.shadowing iterator body
    | _, _ => []

def rejectionsBetween (k : Site) (level : Level) (ss : List Stmt) : List Event :=
  (ss.filter fun s => !s.mayStandBetween).map fun s =>
    k.rejection (.invalidStatementBetweenLoops level) s.span

def between (k : Site) (level : Level) (body : Stmt) : List Event :=
  if body.direct.any (Stmt.isMappedTo level) then k.rejectionsBetween level body.direct else []

/-- The events of the checks of a loop, from the place where it stands on. -/
def checks (k : Site) (n : Nesting) (level : Level) (mark : Attribute) (loop : Loop) :
    List Event :=
  k.position n level mark loop.body ++ k.header (loop.describe k.vars k.label) loop.body ++
    k.between level loop.body

/-- The loop as it is accepted. -/
def mapped (k : Site) (n : Nesting) (head : StmtHead) (level : Level) (mark : Attribute)
    (loop : Loop) : MappedLoop :=
  ⟨k.kernel, level, mark.dimension?, n.depth, head.span, loop.describe k.vars k.label⟩

/-- The events of a loop without those of its body. The loop is accepted if no check rejects
it. -/
def loop (k : Site) (n : Nesting) (head : StmtHead) (level : Level) (mark : Attribute)
    (loop : Loop) : List Event :=
  .passed level head.span :: k.checks n level mark loop ++
    if (k.checks n level mark loop).any Event.isRejection then []
    else [.accepted (k.mapped n head level mark loop)]

end Site

namespace Walk

variable {w : Walk}

theorem finds_reject (v : Violation) (span : Span) (notes : List String) :
    w.mode.Finds (fun c => w.reject c v span notes) [w.rejection v span notes] :=
  CheckMode.finds_add _

theorem checkPosition_finds (n : Nesting) (level : Level) (mark : Attribute) (body : Stmt) :
    w.mode.Finds (w.checkPosition n level mark body) (w.position n level mark body) := by
  cases level with
  | outer => exact (finds_reject _ _ _).ite ((finds_reject _ _ _).ite CheckMode.finds_id)
  | inner => exact CheckMode.finds_id.ite (finds_reject _ _ _)

theorem checkInitializer_finds (d : Declarator) :
    w.mode.Finds (w.checkInitializer d) (w.initializer d) :=
  (finds_reject _ _ _).ite CheckMode.finds_id

theorem checkShadowing_finds (d : Declarator) (body : Stmt) :
    w.mode.Finds (w.checkShadowing d body) (w.shadowing d body) := by
  unfold checkShadowing Site.shadowing
  cases body.shadowing? d.var with
  | none => exact CheckMode.finds_id
  | some other => exact finds_reject _ _ _

theorem checkHeader_finds (d : Descriptor) (body : Stmt) :
    w.mode.Finds (w.checkHeader d body) (w.header d body) := by
  unfold checkHeader Site.header
  cases hf : d.failure with
  | some r => exact CheckMode.finds_add _
  | none =>
    have hquiet : (Event.described d).isRejection = false := by
      simp [Event.isRejection, Event.rejection?, hf]
    cases d.iterator with
    | none => exact CheckMode.finds_add _
    | some iterator =>
      exact CheckMode.Finds.after hquiet
        ((checkInitializer_finds iterator).comp_goOn (checkShadowing_finds iterator body))

theorem rejectBetween_of_stopped (level : Level) (ss : List Stmt) {c : Classification}
    (h : w.mode.stops c = true) : w.rejectBetween level ss c = c := by
  cases ss with
  | nil => rfl
  | cons s ss => simp [rejectBetween, h]

theorem rejectBetween_finds (level : Level) (ss : List Stmt) :
    w.mode.Finds (w.rejectBetween level ss) (w.rejectionsBetween level ss) := by
  induction ss with
  | nil => exact CheckMode.finds_id
  | cons s ss ih =>
    have hreject := (finds_reject (w := w) (.invalidStatementBetweenLoops level) s.span []).comp ih
      fun _ _ => rejectBetween_of_stopped level ss
    have hevents : w.rejectionsBetween level (s :: ss) =
        if s.mayStandBetween then w.rejectionsBetween level ss
        else w.rejection (.invalidStatementBetweenLoops level) s.span ::
          w.rejectionsBetween level ss := by
      cases h : s.mayStandBetween <;> simp [Site.rejectionsBetween, h]
    rw [hevents]
    exact (ih.ite hreject).goOn

theorem checkBetween_finds (level : Level) (body : Stmt) :
    w.mode.Finds (w.checkBetween level body) (w.between level body) :=
  (rejectBetween_finds level body.direct).ite CheckMode.finds_id

theorem checkLoop_finds (n : Nesting) (head : StmtHead) (level : Level) (mark : Attribute)
    (loop : Loop) :
    w.mode.Finds (w.checkLoop n head level mark loop) (w.loop n head level mark loop) := by
  have hposition : w.mode.Finds _ (.passed level head.span :: w.position n level mark loop.body) :=
    CheckMode.Finds.after rfl (checkPosition_finds n level mark loop.body)
  have hchecks := (hposition.comp_goOn
    (checkHeader_finds (loop.describe w.vars w.label) loop.body)).comp_goOn
      (checkBetween_finds level loop.body)
  exact hchecks.accept (w.mapped n head level mark loop)

end Walk

/-! ## The events of a kernel -/

mutual

/-- The events of a statement and all below it. -/
def Stmt.events (k : Site) (n : Nesting) : Stmt → List Event
  | .forLoop h init check update body =>
    match (Stmt.forLoop h init check update body).level? with
    | some (level, mark) =>
      k.loop n h level mark ⟨init, check, update, body⟩ ++ body.events k (n.enter level)
    | none =>
      init.events k n ++ (check.events k n ++ (update.events k n ++ body.events k n))
  | .block _ body => Stmt.eventsAll k n body
  | .ifThen _ _ t => t.events k n
  | .ifElse _ _ t e => t.events k n ++ e.events k n
  | .whileLoop _ _ body => body.events k n
  | .declaration _ _ | .expression _ _ | .returns _ _ | .empty _ => []

def Stmt.eventsAll (k : Site) (n : Nesting) : List Stmt → List Event
  | [] => []
  | s :: ss => s.events k n ++ Stmt.eventsAll k n ss

end

theorem Stmt.eventsAll_eq (k : Site) (n : Nesting) (ss : List Stmt) :
    eventsAll k n ss = ss.flatMap (events k n) := by
  induction ss with
  | nil => rfl
  | cons s ss ih => rw [eventsAll, ih, List.flatMap_cons]

namespace Site

def misplaced (k : Site) (marks : List (Level × Attribute)) : List Event :=
  marks.map fun m => k.rejection (.attributeOnNonLoop m.1) m.2.span

def outerLoop (k : Site) (f : Function) : List Event :=
  if f.body.allStatements.any (Stmt.isMappedTo .outer) then []
  else [k.rejection (.missingOuterLoop f.name) f.span]

end Site

/-- The events of a kernel. -/
def Function.events (f : Function) (vars : VarTable) (label : String) : List Event :=
  let k : Site := ⟨f.name, vars, label⟩
  .entered f.name :: k.misplaced (f.body.allStatements.filterMap Stmt.misplaced?) ++
    k.outerLoop f ++ Stmt.eventsAll k {} f.body.statements

section

variable {w : Walk}

theorem Stmt.visit_of_stopped (n : Nesting) (s : Stmt) {c : Classification}
    (h : w.mode.stops c = true) : s.visit w n c = c := by
  cases s <;> simp [Stmt.visit, CheckMode.goOn_of_stopped h]

theorem Stmt.visitAll_of_stopped (n : Nesting) (ss : List Stmt) {c : Classification}
    (h : w.mode.stops c = true) : Stmt.visitAll w n ss c = c := by
  induction ss with
  | nil => rfl
  | cons s ss ih => rw [Stmt.visitAll, s.visit_of_stopped n h, ih]

theorem CheckMode.Finds.then_visit {step : Classification → Classification} {es fs : List Event}
    {n : Nesting} {s : Stmt} (hs : w.mode.Finds step es) (hv : w.mode.Finds (s.visit w n) fs) :
    w.mode.Finds (fun c => s.visit w n (step c)) (es ++ fs) :=
  hs.comp hv fun _ _ => s.visit_of_stopped n

mutual

/-- The walk through a statement finds its events. -/
theorem Stmt.visit_finds (n : Nesting) :
    (s : Stmt) → w.mode.Finds (s.visit w n) (s.events w.toSite n)
  | .forLoop h init check update body => by
    unfold Stmt.visit Stmt.events
    apply CheckMode.Finds.goOn
    cases (Stmt.forLoop h init check update body).level? with
    | none =>
      have hheader := ((init.visit_finds n).then_visit (check.visit_finds n)).then_visit
        (update.visit_finds n)
      simpa only [List.append_assoc] using hheader.then_visit (body.visit_finds n)
    | some m =>
      exact (Walk.checkLoop_finds n h m.1 m.2 ⟨init, check, update, body⟩).then_visit
        (body.visit_finds (n.enter m.1))
  | .block _ body => by
    unfold Stmt.visit Stmt.events
    exact (Stmt.visitAll_finds n body).goOn
  | .ifThen _ _ t => by
    unfold Stmt.visit Stmt.events
    exact (t.visit_finds n).goOn
  | .ifElse _ _ t e => by
    unfold Stmt.visit Stmt.events
    exact ((t.visit_finds n).then_visit (e.visit_finds n)).goOn
  | .whileLoop _ _ body => by
    unfold Stmt.visit Stmt.events
    exact (body.visit_finds n).goOn
  | .declaration _ _ | .expression _ _ | .returns _ _ | .empty _ => CheckMode.finds_id

theorem Stmt.visitAll_finds (n : Nesting) :
    (ss : List Stmt) → w.mode.Finds (Stmt.visitAll w n ss) (Stmt.eventsAll w.toSite n ss)
  | [] => CheckMode.finds_id
  | s :: ss =>
    (s.visit_finds n).comp (Stmt.visitAll_finds n ss) fun _ _ => Stmt.visitAll_of_stopped n ss

end

namespace Walk

theorem rejectMisplaced_finds (marks : List (Level × Attribute)) :
    w.mode.Finds (w.rejectMisplaced marks) (w.misplaced marks) := by
  have idle (marks : List (Level × Attribute)) (c : Classification) (h : w.mode.stops c = true) :
      w.rejectMisplaced marks c = c := by
    cases marks with
    | nil => rfl
    | cons m rest => simp [rejectMisplaced, h]
  induction marks with
  | nil => exact CheckMode.finds_id
  | cons m rest ih =>
    exact ((finds_reject (.attributeOnNonLoop m.1) m.2.span []).comp ih fun _ => idle rest).goOn

theorem checkOuterLoop_finds (f : Function) : w.mode.Finds (w.checkOuterLoop f) (w.outerLoop f) :=
  CheckMode.finds_id.ite (finds_reject _ _ _)

theorem visitBody_of_stopped (ss : List Stmt) {c : Classification} (h : w.mode.stops c = true) :
    w.visitBody ss c = c := by
  cases ss with
  | nil => rfl
  | cons s ss => simp [visitBody, h]

theorem visitBody_finds (ss : List Stmt) :
    w.mode.Finds (w.visitBody ss) (Stmt.eventsAll w.toSite {} ss) := by
  induction ss with
  | nil => exact CheckMode.finds_id
  | cons s ss ih =>
    exact ((s.visit_finds {}).comp ih fun _ _ => visitBody_of_stopped ss).goOn

end Walk

end

theorem CheckMode.stops_nothing (mode : CheckMode) : mode.stops {} = false := by
  simp [stops, Classification.isOk, Classification.errors]

/-- The check of a kernel finds the events of the kernel, cut by the mode. -/
theorem Function.classify_eq (f : Function) (vars : VarTable) (config : CheckConfig) :
    f.classify vars config = ⟨config.mode.cut (f.events vars config.label)⟩ := by
  let w : Walk := ⟨⟨f.name, vars, config.label⟩, config.mode⟩
  have hmarks : w.mode.Finds _ (.entered f.name :: w.misplaced _) :=
    CheckMode.Finds.after rfl
      (Walk.rejectMisplaced_finds (f.body.allStatements.filterMap Stmt.misplaced?))
  have hkernel := (hmarks.comp_goOn (Walk.checkOuterLoop_finds f)).comp
    (Walk.visitBody_finds f.body.statements) fun _ _ => Walk.visitBody_of_stopped _
  exact hkernel {} (CheckMode.stops_nothing _)

theorem classifyAll_finds (vars : VarTable) (config : CheckConfig) (fs : List Function) :
    config.mode.Finds (classifyAll vars config fs)
      (fs.flatMap fun f => f.events vars config.label) := by
  induction fs with
  | nil => exact CheckMode.finds_id
  | cons f fs ih =>
    have hfirst : config.mode.Finds (fun c => c.merge (f.classify vars config))
        (f.events vars config.label) := by
      intro c _
      rw [Function.classify_eq]
    exact hfirst.comp_goOn ih

/-- The check of a program finds the events of its kernels one after the other, cut by the
mode. -/
theorem Program.classify_eq (p : Program) (config : CheckConfig) :
    p.classify config =
      ⟨config.mode.cut (p.kernels.flatMap fun f => f.events p.vars config.label)⟩ :=
  classifyAll_finds p.vars config p.kernels {} (CheckMode.stops_nothing _)

end LoopNest
