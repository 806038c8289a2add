import LoopNest.Proofs.Header.Facts

/-!
# The clauses of a header

When a clause of a header is read, and what is read in it.

* `comparisonOf_eq_ok_iff`: the second clause compares two operands.
* `boundOf_eq_ok_iff`: one of them is the iterator; the left one wins if both are.
* `stepOf_eq_ok_iff`: the third clause is an update (`Expr.IsStep`).
-/

namespace LoopNest

theorem comparisonOf_eq_ok_iff {name : String} {check : Stmt} {op : BinaryOp} {x : Expr} :
    comparisonOf name check = .ok (op, x) ↔
      op.isComparison = true ∧
        ∃ head span l r, check = .expression head x ∧ x = .binary span op l r := by
  constructor
  · intro h
    unfold comparisonOf at h
    split at h
    · split at h
      · split at h
        · rename_i hop
          cases h
          exact ⟨hop, _, _, _, _, rfl, rfl⟩
        · cases h
      · cases h
    · cases h
  · rintro ⟨hop, head, span, l, r, rfl, rfl⟩
    exact if_pos hop

/-! ## The side of the iterator -/

namespace Expr

variable {id : Nat} {span : Span} {op : BinaryOp} {l r : Expr}

theorem side_of_left (hl : l.isVar id = true) : (binary span op l r).side id = .left r :=
  if_pos hl

theorem side_of_right (hl : l.isVar id = false) (hr : r.isVar id = true) :
    (binary span op l r).side id = .right l := by
  simp only [side, sideOf, hl, hr, Bool.false_eq_true, if_false, if_true]

theorem side_of_neither (hl : l.isVar id = false) (hr : r.isVar id = false) :
    (binary span op l r).side id = .neither := by
  simp only [side, sideOf, hl, hr, Bool.false_eq_true, if_false]

end Expr

theorem boundOf_eq_ok_iff {v : VarRef} {span : Span} {op : BinaryOp} {l r : Expr} {b : Bound} :
    boundOf v (.binary span op l r) = .ok b ↔
      (l.isVar v.id = true ∧ b = ⟨r, true⟩) ∨
        (l.isVar v.id = false ∧ r.isVar v.id = true ∧ b = ⟨l, false⟩) := by
  unfold boundOf
  cases hl : l.isVar v.id with
  | true => simp [Expr.side_of_left hl, eq_comm (b := b)]
  | false =>
    cases hr : r.isVar v.id with
    | true => simp [Expr.side_of_right hl hr, eq_comm (b := b)]
    | false => simp [Expr.side_of_neither hl hr]

/-! ## Updates -/

/-- An update of the variable, with the step that it makes. The other operand of `+=` and `-=` is
the step value, on whichever side the variable is. -/
inductive Expr.IsStep (id : Nat) : Expr → Step → Prop
  | before {span op x u} : UpdateOp.ofUnaryBefore? op = some u → x.isVar id = true →
      IsStep id (.unaryBefore span op x) ⟨u, none⟩
  | behind {span op x u} : UpdateOp.ofUnaryBehind? op = some u → x.isVar id = true →
      IsStep id (.unaryBehind span op x) ⟨u, none⟩
  | left {span op l r u} : UpdateOp.ofBinary? op = some u → l.isVar id = true →
      IsStep id (.binary span op l r) ⟨u, some r⟩
  | right {span op l r u} : UpdateOp.ofBinary? op = some u → l.isVar id = false →
      r.isVar id = true → IsStep id (.binary span op l r) ⟨u, some l⟩

theorem Expr.isStep_of_updateParts? {id : Nat} {x : Expr} {u : UpdateOp} {value : Option Expr}
    (h : updateParts? id x = some (some u, value, true)) : x.IsStep id ⟨u, value⟩ := by
  cases x with
  | unaryBefore span op x =>
    simp only [updateParts?, Option.some.injEq, Prod.mk.injEq] at h
    obtain ⟨hop, rfl, hx⟩ := h
    exact .before hop hx
  | unaryBehind span op x =>
    simp only [updateParts?, Option.some.injEq, Prod.mk.injEq] at h
    obtain ⟨hop, rfl, hx⟩ := h
    exact .behind hop hx
  | binary span op l r =>
    simp only [updateParts?, Option.some.injEq, Prod.mk.injEq] at h
    obtain ⟨hop, hvalue, hmatch⟩ := h
    cases hl : l.isVar id with
    | true =>
      rw [side_of_left hl] at hvalue
      cases hvalue
      exact .left hop hl
    | false =>
      cases hr : r.isVar id with
      | true =>
        rw [side_of_right hl hr] at hvalue
        cases hvalue
        exact .right hop hl hr
      | false =>
        rw [side_of_neither hl hr] at hmatch
        cases hmatch
  | _ => cases h

theorem Expr.updateParts?_of_isStep {id : Nat} {x : Expr} {step : Step} (h : x.IsStep id step) :
    updateParts? id x = some (some step.op, step.value, true) := by
  cases h with
  | before hop hx => simp [updateParts?, hop, isUnaryOn, hx]
  | behind hop hx => simp [updateParts?, hop, isUnaryOn, hx]
  | left hop hl => simp [updateParts?, hop, side_of_left hl, Side.other?, Side.isMatch]
  | right hop hl hr =>
    simp [updateParts?, hop, side_of_right hl hr, Side.other?, Side.isMatch]

theorem stepOf_eq_ok_iff {v : VarRef} {update : Stmt} {step : Step} :
    stepOf v update = .ok step ↔
      ∃ head x, update = .expression head x ∧ x.IsStep v.id step := by
  constructor
  · intro h
    unfold stepOf at h
    split at h
    · split at h
      · cases h
      · cases h
      · rename_i hparts
        cases h
        exact ⟨_, _, rfl, Expr.isStep_of_updateParts? hparts⟩
      · cases h
    · cases h
  · rintro ⟨head, x, rfl, hstep⟩
    simp only [stepOf, Expr.updateParts?_of_isStep hstep]

/-! ## Headers without places -/

/-- The loop `for (int v = init; check; update) ;`, with no place in a source. -/
def Loop.over (v : VarRef) (init check update : Expr) : Loop where
  init := .declaration ⟨.none, []⟩ [⟨v, some init, .none⟩]
  check := .expression ⟨.none, []⟩ check
  update := .expression ⟨.none, []⟩ update
  body := .empty ⟨.none, []⟩

/-- The variables of these names, all of type `int`. -/
def VarTable.ints (names : List String) : VarTable :=
  ⟨(names.map fun name => ⟨name, .int, .none, false⟩).toArray⟩

end LoopNest
