import LoopNest.Proofs.Expr.Evaluation
import LoopNest.Proofs.Expr.NormalForm
import LoopNest.Proofs.Header.Heading

/-!
# Headers with the sides of the comparison exchanged

A comparison may be written from either side: `i < n` is `n > i`. A header says the same either way.

* `Expr.tree_combine`: of what it combines, the arithmetic of headers keeps the trees.
* `Loop.mirrored`: the loop with the operands exchanged and the opposite comparison between them.
* `Descriptor.Mirrors`: what the two headers share.
* `Loop.describe_mirrored`: both break the same rule, or both are valid and share all this.
-/

namespace LoopNest

/-! ## Trees alone -/

namespace Expr

theorem tree_enclosed {x y : Expr} (h : y.tree = x.tree) : y.enclosed.tree = x.enclosed.tree := by
  cases x <;> cases y <;> simp_all [enclosed, tree]

theorem tree_combine {x y a b : Expr} (h : y.tree = x.tree) (h' : b.tree = a.tree) (s : Span)
    (op : BinaryOp) : (combine s op y b).tree = (combine s op x a).tree := by
  rw [combine, combine, tree, tree, tree_enclosed h, tree_enclosed h']

/-- Two references to one variable. -/
theorem tree_of_isVar {x y : Expr} {id : Nat} (hx : x.isVar id = true) (hy : y.isVar id = true) :
    x.tree = y.tree := by
  obtain ⟨s, v, rfl, hv⟩ := eq_var_of_isVar hx
  obtain ⟨s', w, rfl, hw⟩ := eq_var_of_isVar hy
  rw [tree, tree, hv, hw]

/-- The operands exchanged, with the opposite comparison between them. -/
def mirrored : Expr → Expr
  | binary s op l r => binary s op.reversed r l
  | x => x

end Expr

/-- The loop with the operands of its comparison exchanged. -/
def Loop.mirrored (loop : Loop) : Loop :=
  match loop.check with
  | .expression head x => { loop with check := .expression head x.mirrored }
  | _ => loop

/-! ## What the headers share -/

/-- The facts in two headers whose comparisons have the operands `l` and `r`, and `r` and `l`. -/
structure Descriptor.Mirrors (d : Descriptor) (l r : Expr) (m : Descriptor) : Prop where
  iterator : m.iterator = d.iterator
  isInclusive : m.isInclusive = d.isInclusive
  step : m.step = d.step
  direction : m.direction? = d.direction?
  bound : ∃ b c, d.bound = some b ∧ m.bound = some c ∧ c.value.tree = b.value.tree
  tripCount : m.tripCount.map Expr.tree = d.tripCount.map Expr.tree
  valueAt : ∀ index, m.valueAt index = d.valueAt index
  boundOnRight : ∀ v, d.iteratorVar? = some v → ¬ (l.isVar v.id = true ∧ r.isVar v.id = true) →
    m.boundOnRight = !d.boundOnRight

theorem BinaryOp.isInclusive_reversed (op : BinaryOp) :
    op.reversed.isInclusive = op.isInclusive := by
  cases op <;> rfl

/-- The bound is the same one but for its side, or both operands are the iterator. -/
theorem boundOf_mirrored (v : VarRef) (s : Span) (op op' : BinaryOp) (l r : Expr) :
    (∃ e, boundOf v (.binary s op l r) = .error e ∧ boundOf v (.binary s op' r l) = .error e) ∨
    ∃ b c, boundOf v (.binary s op l r) = .ok b ∧ boundOf v (.binary s op' r l) = .ok c ∧
      c.value.tree = b.value.tree ∧
      (¬ (l.isVar v.id = true ∧ r.isVar v.id = true) → c.onRight = !b.onRight) := by
  cases hl : l.isVar v.id <;> cases hr : r.isVar v.id
  · exact .inl ⟨(.checkMissingIterator v.name, s), by
      simp [boundOf, Expr.side_of_neither hl hr, Expr.side_of_neither hr hl, Expr.span]⟩
  · exact .inr ⟨⟨l, false⟩, ⟨l, true⟩, by
      simp [boundOf, Expr.side_of_right hl hr, Expr.side_of_left hr]⟩
  · exact .inr ⟨⟨r, true⟩, ⟨r, false⟩, by
      simp [boundOf, Expr.side_of_left hl, Expr.side_of_right hr hl]⟩
  · refine .inr ⟨⟨r, true⟩, ⟨l, true⟩, ?_, ?_, Expr.tree_of_isVar hl hr, by simp⟩
    · simp [boundOf, Expr.side_of_left hl]
    · simp [boundOf, Expr.side_of_left hr]

namespace Descriptor

variable {d m : Descriptor} {init : Expr} {b c : Bound} {step : Step}

/-- The arithmetic takes of a bound nothing but its tree. -/
theorem tree_tripCount (hd : d.parts = .ok (init, b, step)) (hm : m.parts = .ok (init, c, step))
    (hspan : m.iteratorSpan = d.iteratorSpan) (hinclusive : m.isInclusive = d.isInclusive)
    (hbound : c.value.tree = b.value.tree) :
    m.tripCount.map Expr.tree = d.tripCount.map Expr.tree := by
  have hdistance (s : Span) (way : Direction) :
      (distance s way init c.value).tree = (distance s way init b.value).tree := by
    cases way with
    | ascending => exact Expr.tree_combine hbound rfl s _
    | descending => exact Expr.tree_combine rfl hbound s _
  have hcount (s : Span) (inclusive : Bool) (way : Direction) {x y : Expr} (h : y.tree = x.tree) :
      (withBound s inclusive way y).tree = (withBound s inclusive way x).tree := by
    cases inclusive with
    | false => exact h
    | true => exact Expr.tree_combine h rfl s _
  have hstep (s : Span) (way : Direction) (value : Option Expr) {x y : Expr} (h : y.tree = x.tree) :
      (withStep s way value y).tree = (withStep s way value x).tree := by
    cases value with
    | none => exact h
    | some value => exact Expr.tree_combine h rfl s _
  rw [tripCount, tripCount, hd, hm, hspan, hinclusive]
  exact congrArg Except.ok (hstep _ _ _ (hcount _ _ _ (hdistance _ _)))

/-- The arithmetic of a header with all facts asks for an initial value alone. -/
theorem parts_of_facts (i : Declarator) (op : BinaryOp) (b : Bound) (step : Step) :
    ({ iterator := some i, comparison := some op, bound := some b, step := some step } :
      Descriptor).parts = match i.value with
        | none => .error .noInitialValue
        | some init => .ok (init, b, step) := by
  cases hvalue : i.value <;> simp [parts, isValid, init?, hvalue]

/-- Headers with these facts share all that does not tell the sides apart. -/
theorem mirrors_of_facts (i : Declarator) (op : BinaryOp) (step : Step) {l r : Expr}
    (htree : c.value.tree = b.value.tree)
    (hside : ¬ (l.isVar i.var.id = true ∧ r.isVar i.var.id = true) → c.onRight = !b.onRight) :
    Mirrors { iterator := some i, comparison := some op, bound := some b, step := some step } l r
      { iterator := some i, comparison := some op.reversed, bound := some c, step := some step } := by
  have hd := parts_of_facts i op b step
  have hm := parts_of_facts i op.reversed c step
  refine ⟨rfl, op.isInclusive_reversed, rfl, rfl, ⟨b, c, rfl, rfl, htree⟩, ?_, fun index => ?_, ?_⟩
  · cases hvalue : i.value with
    | none =>
      rw [hvalue] at hd hm
      rw [tripCount, tripCount, hd, hm]
      rfl
    | some init =>
      rw [hvalue] at hd hm
      exact tree_tripCount hd hm rfl op.isInclusive_reversed htree
  · rw [valueAt, valueAt, hd, hm]
    cases i.value <;> rfl
  · intro v hv
    obtain rfl : i.var = v := Option.some.inj hv
    exact hside

end Descriptor

/-- **The sides of a comparison do not matter.** Take a loop whose second clause is `l op r`, and the
one with `r op' l` at the same place, where `op'` is the opposite comparison of `op`, or `op` itself
if that is none. Both are valid, or neither is and both break the same rule at the same place. If they
are valid, they have the same iterator with its initial value, the same step and direction, both
include the bound or neither does, and the bounds and the arithmetic have the same trees. The bound
stands on the other side, unless both operands are the iterator. -/
theorem Loop.describe_mirrored {loop : Loop} {head : StmtHead} {s : Span} {op : BinaryOp}
    {l r : Expr} (hcheck : loop.check = .expression head (.binary s op l r)) (vars : VarTable)
    (label : String) :
    let d := loop.describe vars label
    let m := loop.mirrored.describe vars label
    m.isValid = d.isValid ∧ m.failure = d.failure ∧ (d.isValid = true → d.Mirrors l r m) := by
  obtain ⟨init, check, update, body⟩ := loop
  obtain rfl : check = .expression head (.binary s op l r) := hcheck
  have hmirrored : Loop.mirrored ⟨init, .expression head (.binary s op l r), update, body⟩ =
      ⟨init, .expression head (.binary s op.reversed r l), update, body⟩ := rfl
  rw [hmirrored]
  dsimp only [describe]
  cases iteratorOf vars init with
  | error e => exact ⟨rfl, rfl, fun h => nomatch h⟩
  | ok i =>
    dsimp only [comparisonOf]
    rw [BinaryOp.isComparison_reversed]
    by_cases hop : op.isComparison = true
    · rw [if_pos hop, if_pos hop]
      dsimp only
      rcases boundOf_mirrored i.var s op op.reversed l r with ⟨e, hb, hc⟩ | ⟨b, c, hb, hc, htree, hside⟩
      · rw [hb, hc]
        exact ⟨rfl, rfl, fun h => nomatch h⟩
      · rw [hb, hc]
        dsimp only
        cases stepOf i.var update with
        | error e => exact ⟨rfl, rfl, fun h => nomatch h⟩
        | ok step => exact ⟨rfl, rfl, fun _ => Descriptor.mirrors_of_facts i op step htree hside⟩
    · rw [if_neg hop, if_neg hop]
      exact ⟨rfl, rfl, fun h => nomatch h⟩

/-- The header `for (int i = 0; n >= i; i += i)` and the one with `i <= n`. -/
theorem Loop.describe_mirrored_inclusive :
    let i : Expr := .var .none ⟨0, "i"⟩
    let n : Expr := .var .none ⟨1, "n"⟩
    let loop := Loop.over ⟨0, "i"⟩ (.literal .none (.int 0)) (.binary .none .ge n i)
      (.binary .none .addAssign i i)
    let vars := VarTable.ints ["i", "n"]
    (loop.describe vars "").isValid = true ∧
      (loop.describe vars "").Mirrors n i (loop.mirrored.describe vars "") := by
  intro i n loop vars
  have hvalid : (loop.describe vars "").isValid = true := by decide
  exact ⟨hvalid, (describe_mirrored rfl vars "").2.2 hvalid⟩

end LoopNest
