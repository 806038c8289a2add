import LoopNest.Proofs.Expr.Evaluation
import LoopNest.Proofs.Header.Clauses

/-!
# The step of a header

What the third clause of a valid header does to the variables.

* `Stmt.after`: the store behind a clause.
* `Stmt.target?`: the variable that a clause assigns to.
* `Expr.IsStep.run`: an update changes the variable that it assigns to, by the other operand.
* `Loop.update_of_isValid`: if that variable is the iterator, then the update is a step of the
  iterator. If it is another one, then the iterator stays as it is.
-/

namespace LoopNest

/-- Up or down. -/
def Direction.sign : Direction → Int
  | ascending => 1
  | descending => -1

/-- The store behind a clause of a header. A clause that is left out changes nothing. -/
def Stmt.after (m : Meaning) : Stmt → Store → Store
  | expression _ x, σ => (x.run m σ).2
  | _, σ => σ

/-- The variable that the operator on top assigns to. -/
def Expr.target? : Expr → Option Nat
  | unaryBefore _ _ x | unaryBehind _ _ x => x.place?
  | binary _ _ l _ => l.place?
  | _ => none

def Stmt.target? : Stmt → Option Nat
  | expression _ x => x.target?
  | _ => none

/-- What the step is worth: its step value, or one without a step value. -/
def Step.amount (m : Meaning) (σ : Store) (step : Step) : Int :=
  match step.value with
  | some x => (x.run m σ).1
  | none => 1

/-- Evaluating the step value, if there is one, changes nothing. -/
def Step.Quiet (m : Meaning) (σ : Store) (step : Step) : Prop :=
  ∀ x ∈ step.value, (x.run m σ).2 = σ

theorem Step.fixed_of_not_mentions {m : Meaning} {σ : Store} {id : Nat} {step : Step}
    (hm : m.Local) (hstep : ∀ x ∈ step.value, x.mentions id = false) (hquiet : step.Quiet m σ)
    (n : Int) :
    step.Quiet m (Function.update σ id n) ∧
      step.amount m (Function.update σ id n) = step.amount m σ := by
  obtain ⟨op, value⟩ := step
  cases value with
  | none => exact ⟨fun x hx => (Option.not_mem_none x hx).elim, rfl⟩
  | some x =>
    have hrun := x.run_update_of_not_mentions hm (hstep x rfl) σ n
    constructor
    · intro y hy
      cases hy
      rw [hrun, hquiet x rfl]
    · change (x.run m (Function.update σ id n)).1 = (x.run m σ).1
      rw [hrun]

/-! ## Operators of updates -/

namespace UpdateOp

variable {u : UpdateOp}

theorem change?_of_ofUnaryBefore? {op : UnaryOp} (h : ofUnaryBefore? op = some u) :
    op.change? = some u.direction.sign := by
  cases op <;> cases h <;> rfl

theorem change?_of_ofUnaryBehind? {op : UnaryOp} (h : ofUnaryBehind? op = some u) :
    op.change? = some u.direction.sign := by
  cases op <;> cases h <;> rfl

theorem assign?_of_ofBinary? {op : BinaryOp} (h : ofBinary? op = some u) :
    ∃ f, op.assign? = some f ∧ ∀ a b, f a b = a + u.direction.sign * b := by
  cases op <;> cases h
  · exact ⟨_, rfl, fun a b => by simp only [direction, Direction.sign, Int.one_mul]⟩
  · exact ⟨_, rfl, fun a b => by simp only [direction, Direction.sign]; omega⟩

end UpdateOp

/-! ## Updates -/

namespace Expr.IsStep

variable {m : Meaning} {σ : Store} {id : Nat} {x : Expr} {step : Step}

/-- Only `+=` and `-=` may assign to another variable. -/
theorem target?_of_unit (h : x.IsStep id step) (hunit : step.value = none) :
    x.target? = some id := by
  cases h with
  | before _ hx => exact place?_of_isVar hx
  | behind _ hx => exact place?_of_isVar hx
  | left => cases hunit
  | right => cases hunit

/-- An update that assigns to its variable changes it by the step. -/
theorem run (h : x.IsStep id step) (htarget : x.target? = some id) (hquiet : step.Quiet m σ) :
    (x.run m σ).2 = Function.update σ id (σ id + step.op.direction.sign * step.amount m σ) := by
  cases h with
  | before hop hx =>
    rw [run_step_before (UpdateOp.change?_of_ofUnaryBefore? hop) (place?_of_isVar hx)]
    simp only [Step.amount, Int.mul_one]
  | behind hop hx =>
    rw [run_step_behind (UpdateOp.change?_of_ofUnaryBehind? hop) (place?_of_isVar hx)]
    simp only [Step.amount, Int.mul_one]
  | @left span op l r u hop hl =>
    obtain ⟨f, hf, hsum⟩ := UpdateOp.assign?_of_ofBinary? hop
    have hr : r.run m σ = ((r.run m σ).1, σ) := Prod.ext rfl (hquiet r rfl)
    rw [run_assign hf htarget hr, hsum]
    rfl
  | @right span op l r u hop _ hr =>
    -- Only a variable in parentheses is the target and not the left operand itself.
    obtain ⟨f, hf, hsum⟩ := UpdateOp.assign?_of_ofBinary? hop
    rw [run_assign hf htarget (run_of_place? (place?_of_isVar hr)), hsum]
    simp only [Step.amount, run_of_place? htarget]

/-- An update that assigns to another variable changes that one by its own variable. -/
theorem run_of_ne (h : x.IsStep id step) {other : Nat} (htarget : x.target? = some other)
    (hne : other ≠ id) :
    (x.run m σ).2 = Function.update σ other (σ other + step.op.direction.sign * σ id) := by
  cases h with
  | before hop hx => exact absurd (Option.some.inj (htarget.symm.trans (place?_of_isVar hx))) hne
  | behind hop hx => exact absurd (Option.some.inj (htarget.symm.trans (place?_of_isVar hx))) hne
  | left hop hl => exact absurd (Option.some.inj (htarget.symm.trans (place?_of_isVar hl))) hne
  | right hop _ hr =>
    obtain ⟨f, hf, hsum⟩ := UpdateOp.assign?_of_ofBinary? hop
    rw [run_assign hf htarget (run_of_place? (place?_of_isVar hr)), hsum]

end Expr.IsStep

/-! ## Valid headers -/

/-- **A valid header steps the variable that its update assigns to.** If that is the iterator, then
the update changes the iterator by the step, in the direction of the header, and no other variable.
If it is another variable, on the left of the iterator, then the update changes that one instead,
by the iterator. -/
theorem Loop.update_of_isValid {loop : Loop} {vars : VarTable} {label : String} {it : VarRef}
    {step : Step} (hvalid : (loop.describe vars label).isValid = true)
    (hit : (loop.describe vars label).iteratorVar? = some it)
    (hstep : (loop.describe vars label).step = some step) :
    ∃ head x direction, loop.update = .expression head x ∧
      (loop.describe vars label).direction? = some direction ∧ ∀ m σ,
        (x.target? = some it.id → step.Quiet m σ →
          (x.run m σ).2 =
            Function.update σ it.id (σ it.id + direction.sign * step.amount m σ)) ∧
        ∀ other ≠ it.id, x.target? = some other →
          (x.run m σ).2 = Function.update σ other (σ other + direction.sign * σ it.id) := by
  obtain ⟨d, op, _, b, step', _, _, _, hs, hd⟩ := describe_of_isValid hvalid
  obtain ⟨head, x, hupdate, hx⟩ := stepOf_eq_ok_iff.mp hs
  rw [hd] at hit hstep
  cases hit
  cases hstep
  refine ⟨head, x, step.op.direction, hupdate, ?_, fun m σ => ⟨?_, ?_⟩⟩
  · rw [hd]
    rfl
  · intro htarget hquiet
    exact hx.run htarget hquiet
  · intro other hne htarget
    exact hx.run_of_ne htarget hne

/-- The header `for (int i = 0; i < n; i -= s)` takes `s` off `i`. -/
theorem Loop.update_of_isValid_minus :
    let i : Expr := .var .none ⟨0, "i"⟩
    let n : Expr := .var .none ⟨1, "n"⟩
    let s : Expr := .var .none ⟨2, "s"⟩
    let u : Expr := .binary .none .subAssign i s
    let loop := Loop.over ⟨0, "i"⟩ (.literal .none (.int 0)) (.binary .none .lt i n) u
    (loop.describe (.ints ["i", "n", "s"]) "").isValid = true ∧
      ∀ m σ, (u.run m σ).2 = Function.update σ 0 (σ 0 - σ 2) := by
  intro i n s u loop
  have hvalid : (loop.describe (.ints ["i", "n", "s"]) "").isValid = true := by decide
  have hstep : (loop.describe (.ints ["i", "n", "s"]) "").step = some ⟨.subAssign, some s⟩ := rfl
  obtain ⟨head, x, direction, hupdate, hdirection, hx⟩ := update_of_isValid hvalid rfl hstep
  cases hupdate
  cases hdirection
  refine ⟨hvalid, fun m σ => ?_⟩
  have hquiet : Step.Quiet m σ ⟨.subAssign, some s⟩ := by
    intro y hy
    cases hy
    rfl
  rw [(hx m σ).1 rfl hquiet]
  congr 1
  change σ 0 + -1 * σ 2 = σ 0 - σ 2
  omega

/-- The header `for (int i = 0; i < n; s += i)` is valid, with `s` as its step. Its update changes
`s` and leaves `i` as it is. -/
theorem Loop.update_leaves_iterator :
    let i : Expr := .var .none ⟨0, "i"⟩
    let n : Expr := .var .none ⟨1, "n"⟩
    let s : Expr := .var .none ⟨2, "s"⟩
    let u : Expr := .binary .none .addAssign s i
    let loop := Loop.over ⟨0, "i"⟩ (.literal .none (.int 0)) (.binary .none .lt i n) u
    let d := loop.describe (.ints ["i", "n", "s"]) ""
    d.isValid = true ∧ d.iteratorVar? = some ⟨0, "i"⟩ ∧ d.stepValue? = some s ∧
      d.direction? = some .ascending ∧ ∀ m, s.run m (fun _ => 1) = (1, fun _ => 1) ∧
        (u.run m fun _ => 1).2 0 = 1 ∧ (u.run m fun _ => 1).2 2 = 2 :=
  ⟨by decide, rfl, rfl, rfl, fun _ => ⟨rfl, rfl, rfl⟩⟩

end LoopNest
