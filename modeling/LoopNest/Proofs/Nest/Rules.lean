import LoopNest.Proofs.Header.Facts
import LoopNest.Proofs.Nest.Events
import LoopNest.Proofs.Stmt.Occurrence

/-!
# The rules for loop nests

The rules on a mapped loop, said of the loop where it stands, without a walk that comes by it.

* `PlacedLoop`: a mapped loop with the statements around it.
* `PlacedLoop.rejections`: one rejection for each rule that the loop breaks.
* `PlacedLoop.Sound`, `Function.Sound`: no rule is broken.
* `PlacedLoop.rejections_eq_nil_iff`, `Function.rejections_eq_nil_iff`: there is nothing to
  reject exactly if no rule is broken.
-/

namespace LoopNest

/-! ## Mapped loops where they stand -/

/-- A mapped loop with the statements around it, the innermost one first. -/
structure PlacedLoop where
  around : List Stmt
  head : StmtHead
  level : Level
  mark : Attribute
  loop : Loop

/-- The mapped loop that stands there, if the statement is one. -/
def Occurrence.mapped? (o : Occurrence) : Option PlacedLoop :=
  o.stmt.loop?.bind fun loop =>
    o.stmt.level?.map fun (level, mark) => ⟨o.around, o.stmt.head, level, mark, loop⟩

def Stmt.placedLoops (around : List Stmt) (s : Stmt) : List PlacedLoop :=
  (s.occurrences around).filterMap Occurrence.mapped?

/-- The mapped loops of a function, in the order of the source. -/
def Function.placedLoops (f : Function) : List PlacedLoop :=
  f.body.statements.flatMap (Stmt.placedLoops [])

/-- The variables that a statement and those below it declare. -/
def Stmt.declarators (s : Stmt) : List Declarator :=
  s.statements.flatMap fun t => (t.declarators?).getD []

/-- Another variable of the same name. -/
def Declarator.Shadows (e : Declarator) (v : VarRef) : Prop := e.var.name = v.name ∧ e.var.id ≠ v.id

instance (e : Declarator) (v : VarRef) : Decidable (e.Shadows v) :=
  inferInstanceAs (Decidable (_ ∧ _))

/-! ## Broken rules -/

def Broken.rejection (label : String) (b : Broken) : Rejection := ⟨b.1, b.2, label⟩

/-- The initial value that is missing, and the first variable that shadows the iterator. -/
def Declarator.breaches (d : Declarator) (body : Stmt) : List Broken :=
  (if d.value.isNone then [(.missingInitializer d.var.name, d.span)] else []) ++
    ((body.declarators.filter fun e => e.Shadows d.var).take 1).map fun e =>
      (.shadowedIterator d.var.name, e.span)

namespace PlacedLoop

/-- Some loop around the loop has that level. -/
def Within (o : PlacedLoop) (l : Level) : Prop := ∃ s ∈ o.around, s.isMappedTo l

instance (o : PlacedLoop) (l : Level) : Decidable (o.Within l) :=
  inferInstanceAs (Decidable (∃ s ∈ o.around, _))

/-- The number of mapped loops around the loop. -/
def depth (o : PlacedLoop) : Nat := o.around.countP Stmt.isMappedLoop

/-- The rules on where the loop stands: an `@outer` loop is in no `@inner` one, an `@inner` loop
is in an `@outer` one, and an `@outer` loop in no other mapped loop has some `@inner` loop in
its body. -/
def misplacements (o : PlacedLoop) : List Broken :=
  (if o.level = .outer ∧ o.Within .inner then [(.outerInsideInner, o.mark.span)] else []) ++
    (if o.level = .inner ∧ ¬ o.Within .outer then [(.innerOutsideOuter, o.mark.span)] else []) ++
    if o.level = .outer ∧ (∀ s ∈ o.around, ¬ s.isMappedLoop) ∧
        ∀ s ∈ o.loop.body.statements, ¬ s.isMappedTo .inner then
      [(.missingInnerLoop, o.mark.span)]
    else []

/-- The rule on the header or, if the header keeps it, the rules on its variable. -/
def headerRejections (o : PlacedLoop) (vars : VarTable) (label : String) : List Rejection :=
  let d := o.loop.describe vars label
  match d.failure with
  | some r => [r]
  | none => (d.iterator.toList.flatMap fun i => i.breaches o.loop.body).map (Broken.rejection label)

/-- If a loop of the same level stands directly in the body, then each statement there that is
no declaration, no mapped loop and not empty. -/
def intruders (o : PlacedLoop) : List Broken :=
  if ∃ s ∈ o.loop.body.directly, s.isMappedTo o.level then
    (o.loop.body.directly.filter fun s =>
      ¬ (s.isDeclaration ∨ s.isMappedLoop ∨ s.isEmpty)).map fun s =>
        (.invalidStatementBetweenLoops o.level, s.span)
  else []

/-- One rejection for each rule that the loop breaks. -/
def rejections (o : PlacedLoop) (vars : VarTable) (label : String) : List Rejection :=
  o.misplacements.map (Broken.rejection label) ++ o.headerRejections vars label ++
    o.intruders.map (Broken.rejection label)

end PlacedLoop

namespace Function

/-- The levels of statements that are no loops. -/
def misplacedMarks (f : Function) : List Broken :=
  (f.body.allStatements.filter fun s => ¬ s.isLoop).filterMap fun s =>
    s.level?.map fun (level, mark) => (.attributeOnNonLoop level, mark.span)

/-- The `@outer` loop that is missing. -/
def missingOuter (f : Function) : List Broken :=
  if ∀ s ∈ f.body.allStatements, ¬ s.isMappedTo .outer then [(.missingOuterLoop f.name, f.span)]
  else []

/-- One rejection for each rule that the function breaks as a kernel, and for each that a loop
in it breaks. -/
def rejections (f : Function) (vars : VarTable) (label : String) : List Rejection :=
  f.misplacedMarks.map (Broken.rejection label) ++ f.missingOuter.map (Broken.rejection label) ++
    f.placedLoops.flatMap fun o => o.rejections vars label

end Function

/-! ## No broken rules -/

/-- The loop breaks no rule. -/
structure PlacedLoop.Sound (o : PlacedLoop) (vars : VarTable) (label : String) : Prop where
  outer : o.level = .outer → ¬ o.Within .inner
  inner : o.level = .inner → o.Within .outer
  nest : o.level = .outer → (∀ s ∈ o.around, ¬ s.isMappedLoop) →
    ∃ s ∈ o.loop.body.statements, s.isMappedTo .inner
  header : (o.loop.describe vars label).isValid
  initialized : ((o.loop.describe vars label).init?).isSome
  unshadowed : ∀ v, (o.loop.describe vars label).iteratorVar? = some v →
    ∀ e ∈ o.loop.body.declarators, ¬ e.Shadows v
  between : (∃ s ∈ o.loop.body.directly, s.isMappedTo o.level) →
    ∀ s ∈ o.loop.body.directly, s.isDeclaration ∨ s.isMappedLoop ∨ s.isEmpty

/-- The function breaks no rule as a kernel, and none of its loops does. -/
structure Function.Sound (f : Function) (vars : VarTable) (label : String) : Prop where
  marks : ∀ s ∈ f.body.allStatements, s.level?.isSome → s.isLoop
  outer : ∃ s ∈ f.body.allStatements, s.isMappedTo .outer
  loops : ∀ o ∈ f.placedLoops, o.Sound vars label

namespace PlacedLoop

variable (o : PlacedLoop)

theorem misplacements_eq_nil_iff :
    o.misplacements = [] ↔
      (o.level = .outer → ¬ o.Within .inner) ∧ (o.level = .inner → o.Within .outer) ∧
        (o.level = .outer → (∀ s ∈ o.around, ¬ s.isMappedLoop) →
          ∃ s ∈ o.loop.body.statements, s.isMappedTo .inner) := by
  simp only [misplacements, List.append_eq_nil_iff, ite_eq_right_iff, List.cons_ne_nil, imp_false,
    not_and, not_not, not_forall, exists_prop, and_assoc]

theorem intruders_eq_nil_iff :
    o.intruders = [] ↔
      ((∃ s ∈ o.loop.body.directly, s.isMappedTo o.level) →
        ∀ s ∈ o.loop.body.directly, s.isDeclaration ∨ s.isMappedLoop ∨ s.isEmpty) := by
  simp only [intruders, ite_eq_right_iff, List.map_eq_nil_iff, List.filter_eq_nil_iff,
    decide_eq_true_eq, not_not]

end PlacedLoop

theorem Declarator.breaches_eq_nil_iff (d : Declarator) (body : Stmt) :
    d.breaches body = [] ↔
      d.value.isSome = true ∧ ∀ e ∈ body.declarators, ¬ e.Shadows d.var := by
  have hvalue : d.value.isNone = true ↔ ¬ d.value.isSome = true := by cases d.value <;> simp
  simp only [breaches, List.append_eq_nil_iff, ite_eq_right_iff, List.cons_ne_nil, imp_false,
    hvalue, not_not, List.map_eq_nil_iff, List.take_eq_nil_iff, Nat.one_ne_zero, false_or,
    List.filter_eq_nil_iff, decide_eq_true_eq]

namespace PlacedLoop

variable (o : PlacedLoop) (vars : VarTable) (label : String)

theorem headerRejections_eq_nil_iff :
    o.headerRejections vars label = [] ↔
      (o.loop.describe vars label).isValid = true ∧
        (o.loop.describe vars label).init?.isSome = true ∧
        ∀ v, (o.loop.describe vars label).iteratorVar? = some v →
          ∀ e ∈ o.loop.body.declarators, ¬ e.Shadows v := by
  unfold headerRejections
  cases hvalid : (o.loop.describe vars label).isValid with
  | false =>
    obtain ⟨r, hr⟩ : ∃ r, (o.loop.describe vars label).failure = some r := by
      simpa [Descriptor.isValid, Option.isSome_iff_exists] using hvalid
    simp [hr]
  | true =>
    obtain ⟨d, op, _, b, step, _, _, _, _, hd⟩ := Loop.describe_of_isValid hvalid
    rw [hd]
    simp [Descriptor.init?, Descriptor.iteratorVar?, Declarator.breaches_eq_nil_iff]

/-- There is nothing to reject exactly if the loop breaks no rule. -/
theorem rejections_eq_nil_iff : o.rejections vars label = [] ↔ o.Sound vars label := by
  rw [rejections, List.append_eq_nil_iff, List.append_eq_nil_iff, List.map_eq_nil_iff,
    List.map_eq_nil_iff, misplacements_eq_nil_iff, headerRejections_eq_nil_iff,
    intruders_eq_nil_iff]
  constructor
  · rintro ⟨⟨⟨houter, hinner, hnest⟩, hheader, hinit, hshadow⟩, hbetween⟩
    exact ⟨houter, hinner, hnest, hheader, hinit, hshadow, hbetween⟩
  · intro h
    exact ⟨⟨⟨h.outer, h.inner, h.nest⟩, h.header, h.initialized, h.unshadowed⟩, h.between⟩

instance : Decidable (o.Sound vars label) :=
  decidable_of_iff ((o.rejections vars label).isEmpty = true)
    (List.isEmpty_iff.trans (o.rejections_eq_nil_iff vars label))

end PlacedLoop

namespace Function

variable (f : Function)

theorem misplacedMarks_eq_nil_iff :
    f.misplacedMarks = [] ↔ ∀ s ∈ f.body.allStatements, s.level?.isSome → s.isLoop := by
  simp only [misplacedMarks, List.filterMap_eq_nil_iff, List.mem_filter, Option.map_eq_none_iff,
    decide_eq_true_eq, and_imp]
  refine forall₂_congr fun s _ => ?_
  cases s.level? <;> simp

theorem missingOuter_eq_nil_iff :
    f.missingOuter = [] ↔ ∃ s ∈ f.body.allStatements, s.isMappedTo .outer := by
  simp only [missingOuter, ite_eq_right_iff, List.cons_ne_nil, imp_false, not_forall, not_not,
    exists_prop]

/-- There is nothing to reject exactly if no rule is broken. -/
theorem rejections_eq_nil_iff (vars : VarTable) (label : String) :
    f.rejections vars label = [] ↔ f.Sound vars label := by
  rw [rejections, List.append_eq_nil_iff, List.append_eq_nil_iff, List.map_eq_nil_iff,
    List.map_eq_nil_iff, List.flatMap_eq_nil_iff, misplacedMarks_eq_nil_iff,
    missingOuter_eq_nil_iff]
  constructor
  · rintro ⟨⟨hmarks, houter⟩, hloops⟩
    exact ⟨hmarks, houter, fun o ho => (o.rejections_eq_nil_iff vars label).mp (hloops o ho)⟩
  · intro h
    exact ⟨⟨h.marks, h.outer⟩, fun o ho =>
      (o.rejections_eq_nil_iff vars label).mpr (h.loops o ho)⟩

end Function

end LoopNest
