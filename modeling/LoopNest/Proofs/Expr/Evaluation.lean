import LoopNest.Expr.Occurrence
import Mathlib.Logic.Function.Basic

/-!
# Evaluating expressions

What an expression is worth, and what evaluating it does to the variables. Variables hold whole
numbers without bounds. Sums, differences, products, comparisons and assignments to variables mean
what they mean in C. All other expressions may mean anything, with effects or without: calls,
elements of arrays, quotients, fractions, negations and connectives.

* `Expr.run`: the value of an expression and the store behind it.
* `Expr.run_apply`, `Expr.run_assign`, `Expr.run_step_before`, `Expr.run_step_behind`: one rule
  for each kind of operator, from the runs of its operands.
* `Expr.run_update_of_not_mentions`: an expression neither reads nor changes a variable that it
  does not mention.
-/

namespace LoopNest

/-- The values of the variables, by their numbers. -/
abbrev Store := Nat → Int

/-- The value of each expression that is left open, and the store behind it. -/
abbrev Meaning := Expr → Store → Int × Store

/-! ## Operators -/

/-- The change that an operator makes to a variable. -/
def UnaryOp.change? : UnaryOp → Option Int
  | .increment => some 1
  | .decrement => some (-1)
  | .negate | .not => none

/-- The number that an operator makes of two. A comparison makes one if it holds, and zero if it
does not. -/
def BinaryOp.result? : BinaryOp → Option (Int → Int → Int)
  | .add => some (· + ·)
  | .sub => some (· - ·)
  | .mul => some (· * ·)
  | .lt => some fun a b => if a < b then 1 else 0
  | .le => some fun a b => if a ≤ b then 1 else 0
  | .gt => some fun a b => if b < a then 1 else 0
  | .ge => some fun a b => if b ≤ a then 1 else 0
  | .eq => some fun a b => if a = b then 1 else 0
  | .ne => some fun a b => if a ≠ b then 1 else 0
  | _ => none

/-- The number that an assignment leaves in a variable, from the one in it and the operand. -/
def BinaryOp.assign? : BinaryOp → Option (Int → Int → Int)
  | .assign => some fun _ b => b
  | .addAssign => some (· + ·)
  | .subAssign => some (· - ·)
  | .mulAssign => some (· * ·)
  | _ => none

theorem BinaryOp.result?_of_assign? {op : BinaryOp} {f : Int → Int → Int}
    (h : op.assign? = some f) : op.result? = none := by
  cases op <;> first | rfl | cases h

namespace Expr

/-! ## Runs -/

/-- The variable that an assignment to the expression changes. -/
def place? : Expr → Option Nat
  | var _ v => some v.id
  | parentheses _ x => x.place?
  | _ => none

/-- The value of an expression, and the store behind it. Operands are evaluated from left to
right, and an assignment reads its variable before it evaluates the operand. -/
def run (m : Meaning) : Expr → Store → Int × Store
  | var _ v, σ => (σ v.id, σ)
  | literal s value, σ =>
    match value with
    | .int n => (n, σ)
    | _ => m (literal s value) σ
  | parentheses _ x, σ => x.run m σ
  | unaryBefore s op x, σ =>
    match op.change?, x.place? with
    | some c, some id => (σ id + c, Function.update σ id (σ id + c))
    | _, _ => m (unaryBefore s op x) σ
  | unaryBehind s op x, σ =>
    match op.change?, x.place? with
    | some c, some id => (σ id, Function.update σ id (σ id + c))
    | _, _ => m (unaryBehind s op x) σ
  | binary s op l r, σ =>
    match op.result?, op.assign?, l.place? with
    | some f, _, _ => (f (l.run m σ).1 (r.run m (l.run m σ).2).1, (r.run m (l.run m σ).2).2)
    | none, some f, some id =>
      (f (σ id) (r.run m σ).1, Function.update (r.run m σ).2 id (f (σ id) (r.run m σ).1))
    | none, _, _ => m (binary s op l r) σ
  | subscript s a i, σ => m (subscript s a i) σ
  | call s f args, σ => m (call s f args) σ

variable {m : Meaning} {σ σ₁ σ₂ : Store} {s : Span} {l r x : Expr} {a b c : Int} {id : Nat}

attribute [local simp] run

@[simp] theorem run_int (n : Int) : (literal s (.int n)).run m σ = (n, σ) := rfl

@[simp] theorem run_enclosed (x : Expr) : x.enclosed.run m σ = x.run m σ := by
  cases x <;> rfl

theorem run_apply {op : BinaryOp} {f : Int → Int → Int} (hop : op.result? = some f)
    (hl : l.run m σ = (a, σ₁)) (hr : r.run m σ₁ = (b, σ₂)) :
    (binary s op l r).run m σ = (f a b, σ₂) := by
  simp [hop, hl, hr]

theorem run_assign {op : BinaryOp} {f : Int → Int → Int} (hop : op.assign? = some f)
    (hl : l.place? = some id) (hr : r.run m σ = (b, σ₁)) :
    (binary s op l r).run m σ = (f (σ id) b, Function.update σ₁ id (f (σ id) b)) := by
  simp [BinaryOp.result?_of_assign? hop, hop, hl, hr]

theorem run_step_before {op : UnaryOp} (hop : op.change? = some c) (hx : x.place? = some id) :
    (unaryBefore s op x).run m σ = (σ id + c, Function.update σ id (σ id + c)) := by
  simp [hop, hx]

theorem run_step_behind {op : UnaryOp} (hop : op.change? = some c) (hx : x.place? = some id) :
    (unaryBehind s op x).run m σ = (σ id, Function.update σ id (σ id + c)) := by
  simp [hop, hx]

theorem run_before_open {op : UnaryOp}
    (h : ∀ c id, op.change? = some c → x.place? = some id → False) :
    (unaryBefore s op x).run m σ = m (unaryBefore s op x) σ := by
  unfold run
  split
  next c id hc hid => exact (h c id hc hid).elim
  next => rfl

theorem run_behind_open {op : UnaryOp}
    (h : ∀ c id, op.change? = some c → x.place? = some id → False) :
    (unaryBehind s op x).run m σ = m (unaryBehind s op x) σ := by
  unfold run
  split
  next c id hc hid => exact (h c id hc hid).elim
  next => rfl

theorem run_binary_open {op : BinaryOp} (happly : op.result? = none)
    (h : ∀ f id, op.assign? = some f → l.place? = some id → False) :
    (binary s op l r).run m σ = m (binary s op l r) σ := by
  unfold run
  split
  next f hf => rw [happly] at hf; cases hf
  next f id _ hf hid => exact (h f id hf hid).elim
  next => rfl

/-! ## Variables -/

theorem eq_var_of_isVar (h : x.isVar id = true) : ∃ s v, x = var s v ∧ v.id = id := by
  cases x with
  | var s v => exact ⟨s, v, rfl, eq_of_beq h⟩
  | _ => cases h

theorem place?_of_isVar (h : x.isVar id = true) : x.place? = some id := by
  obtain ⟨s, v, rfl, rfl⟩ := eq_var_of_isVar h
  rfl

/-- Parentheses around a variable change nothing. -/
theorem run_of_place? (h : x.place? = some id) : x.run m σ = (σ id, σ) := by
  induction x using place?.induct with
  | case1 s v =>
    cases h
    rfl
  | case2 s x ih => exact ih h
  | case3 x hvar hparentheses =>
    simp only [place?] at h
    cases h

/-! ## Other variables -/

theorem ne_of_place? {place : Nat} (hp : x.place? = some place) (hx : x.mentions id = false) :
    place ≠ id := by
  induction x using place?.induct with
  | case1 s v =>
    cases hp
    simpa [mentions] using hx
  | case2 s x ih => exact ih hp hx
  | case3 x hvar hparentheses =>
    simp only [place?] at hp
    cases hp

end Expr

/-- What is left open neither reads nor changes a variable that it does not mention. -/
def Meaning.Local (m : Meaning) : Prop :=
  ∀ x id σ n, x.mentions id = false →
    m x (Function.update σ id n) = ((m x σ).1, Function.update (m x σ).2 id n)

namespace Expr

variable {m : Meaning} {x : Expr} {id : Nat}

/-- An expression that does not mention a variable is worth the same whatever the variable holds,
and leaves it as it is. -/
theorem run_update_of_not_mentions (hm : m.Local) (hx : x.mentions id = false) (σ : Store)
    (n : Int) :
    x.run m (Function.update σ id n) = ((x.run m σ).1, Function.update (x.run m σ).2 id n) := by
  induction x, σ using run.induct m with
  | case1 s v σ =>
    have hne : v.id ≠ id := by simpa [mentions] using hx
    simp only [run, Function.update_of_ne hne]
  | case2 => rfl
  | case3 s value σ hvalue =>
    cases value with
    | int k => exact (hvalue k rfl).elim
    | _ => exact hm _ id σ n hx
  | case4 s x σ ih => exact ih hx
  | case5 s op x σ c place hplace hop =>
    have hne : place ≠ id := ne_of_place? hplace hx
    rw [run_step_before hop hplace, run_step_before hop hplace, Function.update_of_ne hne,
      Function.update_comm hne.symm]
  | case6 s op x σ hopen =>
    rw [run_before_open hopen, run_before_open hopen]
    exact hm _ id σ n hx
  | case7 s op x σ c place hplace hop =>
    have hne : place ≠ id := ne_of_place? hplace hx
    rw [run_step_behind hop hplace, run_step_behind hop hplace, Function.update_of_ne hne,
      Function.update_comm hne.symm]
  | case8 s op x σ hopen =>
    rw [run_behind_open hopen, run_behind_open hopen]
    exact hm _ id σ n hx
  | case9 s op l r σ f hop ihl ihr =>
    obtain ⟨hl, hr⟩ := Bool.or_eq_false_iff.mp hx
    rw [run_apply hop (ihl hl) (ihr hr), run_apply hop rfl rfl]
  | case10 s op l r σ f place hplace hop _ ih =>
    obtain ⟨hl, hr⟩ := Bool.or_eq_false_iff.mp hx
    have hne : place ≠ id := ne_of_place? hplace hl
    rw [run_assign hop hplace (ih hr), run_assign hop hplace rfl, Function.update_of_ne hne,
      Function.update_comm hne.symm]
  | case11 s op l r σ happly hassign =>
    rw [run_binary_open happly hassign, run_binary_open happly hassign]
    exact hm _ id σ n hx
  | case12 s a i σ => exact hm _ id σ n hx
  | case13 s f args σ => exact hm _ id σ n hx

end Expr

end LoopNest
