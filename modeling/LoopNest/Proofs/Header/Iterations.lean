import LoopNest.Header.Arithmetic
import LoopNest.Proofs.Header.Heading
import LoopNest.Proofs.Header.Update
import Mathlib.Logic.Function.Iterate

/-!
# Runs of a loop

The arithmetic of a header against the runs of its loop, in which the iterator holds whole numbers
without bounds.

* `Loop.RunsTimes`: how often a loop runs its body.
* `Loop.runsTimes_iff`: so often as a number says that counts the rounds that are left.
* `Loop.runsTimes_iff_tripCount`: for a step of one that number is the value of the trip count, and
  two more for a descent to an included bound.
* `Loop.not_runsTimes_of_heading?_ne`: a loop that compares against its step never ends.
* `Loop.iterate_update_eq_valueAt`: the value at an index is that of the iterator behind so many
  updates.
-/

namespace LoopNest

/-! ## Runs -/

/-- Whether a clause of a header holds. A clause that is left out does. -/
def Stmt.Holds (m : Meaning) : Stmt → Store → Prop
  | expression _ x, σ => (x.run m σ).1 ≠ 0
  | _, _ => True

namespace Loop

section

variable (m : Meaning) (loop : Loop) (body : Store → Store) (start : Store)

/-- The store behind one more round: the check, the body and the update. -/
def next (σ : Store) : Store := loop.update.after m (body (loop.check.after m σ))

/-- The loop has run its body so many times and makes its check in that store. -/
inductive AtCheck : Nat → Store → Prop
  | start : AtCheck 0 start
  | next {n : Nat} {σ : Store} : AtCheck n σ → loop.check.Holds m σ →
      AtCheck (n + 1) (loop.next m body σ)

/-- The loop runs its body so many times, and then its check fails. -/
def RunsTimes (n : Nat) : Prop :=
  ∃ σ, loop.AtCheck m body start n σ ∧ ¬ loop.check.Holds m σ

end

variable {m : Meaning} {loop : Loop} {body : Store → Store} {start : Store}

theorem AtCheck.left {left : Store → Int}
    (hnext : ∀ n σ, loop.AtCheck m body start n σ → loop.check.Holds m σ →
      left (loop.next m body σ) = left σ - 1)
    {n : Nat} {σ : Store} (h : loop.AtCheck m body start n σ) : left σ = left start - n := by
  induction h with
  | start => simp
  | @next n σ h hholds ih =>
    rw [hnext n σ h hholds, ih]
    omega

/-- A loop runs so many times as there are rounds left at its start: the check holds as long as
some are left, and each round takes one off. -/
theorem runsTimes_iff {left : Store → Int}
    (hholds : ∀ n σ, loop.AtCheck m body start n σ → (loop.check.Holds m σ ↔ 0 < left σ))
    (hnext : ∀ n σ, loop.AtCheck m body start n σ → loop.check.Holds m σ →
      left (loop.next m body σ) = left σ - 1) (n : Nat) :
    loop.RunsTimes m body start n ↔ (n : Int) = max 0 (left start) := by
  -- As long as rounds are left at the start, the loop gets to its next check.
  have hreach : ∀ k : Nat, (k : Int) ≤ max 0 (left start) →
      ∃ σ, loop.AtCheck m body start k σ := by
    intro k
    induction k with
    | zero => exact fun _ => ⟨start, .start⟩
    | succ k ih =>
      intro hk
      obtain ⟨σ, hσ⟩ := ih (by omega)
      have hleft : left σ = left start - k := hσ.left hnext
      have hcheck : loop.check.Holds m σ := (hholds k σ hσ).mpr (by omega)
      exact ⟨_, hσ.next hcheck⟩
  constructor
  · rintro ⟨σ, hσ, hfails⟩
    have hleft : left σ = left start - n := hσ.left hnext
    have hdone : ¬ 0 < left σ := fun h => hfails ((hholds n σ hσ).mpr h)
    -- The last round that was run, if any, was still left before it.
    cases hσ with
    | start => simp; omega
    | @next k τ hτ hτholds =>
      have hτleft : left τ = left start - k := hτ.left hnext
      have hτpos : 0 < left τ := (hholds k τ hτ).mp hτholds
      omega
  · intro hn
    obtain ⟨σ, hσ⟩ := hreach n (by omega)
    have hleft : left σ = left start - n := hσ.left hnext
    refine ⟨σ, hσ, fun hholdsσ => ?_⟩
    have hpos : 0 < left σ := (hholds n σ hσ).mp hholdsσ
    omega

end Loop

/-! ## One round -/

/-- The rounds that are left with the iterator at `i` and the bound at `b`, for steps of one. -/
def Direction.roundsLeft (way : Direction) (inclusive : Bool) (i b : Int) : Int :=
  way.sign * (b - i) + if inclusive then 1 else 0

theorem Direction.roundsLeft_add_sign (way : Direction) (inclusive : Bool) (i b : Int) :
    way.roundsLeft inclusive (i + way.sign) b = way.roundsLeft inclusive i b - 1 := by
  cases way <;> simp only [roundsLeft, sign] <;> omega

theorem Direction.roundsLeft_add_sign_of_ne {way other : Direction} (h : way ≠ other)
    (inclusive : Bool) (i b : Int) :
    way.roundsLeft inclusive (i + other.sign) b = way.roundsLeft inclusive i b + 1 := by
  cases way <;> cases other <;> simp only [roundsLeft, sign] <;>
    first | exact absurd rfl h | omega

theorem BinaryOp.result?_of_heading? {op : BinaryOp} {boundOnRight : Bool} {way : Direction}
    (h : op.heading? boundOnRight = some way) :
    ∃ f, op.result? = some f ∧ ∀ i b,
      (if boundOnRight then f i b else f b i) ≠ 0 ↔ 0 < way.roundsLeft op.isInclusive i b := by
  cases op <;> cases boundOnRight <;> cases h <;> refine ⟨_, rfl, fun i b => ?_⟩ <;>
    simp only [Direction.roundsLeft, Direction.sign, isInclusive, reduceIte, Bool.false_eq_true] <;>
    omega

namespace Loop

variable {m : Meaning} {loop : Loop} {body : Store → Store} {σ : Store} {v : VarRef}

/-- The check of a header holds as long as rounds are left in the direction of its comparison, and
leaves the iterator as it is, if evaluating the bound does. -/
theorem check_of_heading? {name : String} {op : BinaryOp} {x : Expr} {bound : Bound}
    {way : Direction} (hc : comparisonOf name loop.check = .ok (op, x))
    (hb : boundOf v x = .ok bound) (hway : op.heading? bound.onRight = some way)
    (hkept : (bound.value.run m σ).2 v.id = σ v.id) :
    (loop.check.Holds m σ ↔
        0 < way.roundsLeft op.isInclusive (σ v.id) (bound.value.run m σ).1) ∧
      loop.check.after m σ v.id = σ v.id := by
  obtain ⟨_, head, span, l, r, hcheck, rfl⟩ := comparisonOf_eq_ok_iff.mp hc
  obtain ⟨f, hf, hholds⟩ := BinaryOp.result?_of_heading? hway
  rw [hcheck]
  rcases boundOf_eq_ok_iff.mp hb with ⟨hl, rfl⟩ | ⟨_, hr, rfl⟩
  · have hrun : (Expr.binary span op l r).run m σ = (f (σ v.id) (r.run m σ).1, (r.run m σ).2) :=
      Expr.run_apply hf (Expr.run_of_place? (Expr.place?_of_isVar hl)) rfl
    constructor
    · rw [Stmt.Holds, hrun]
      exact hholds _ _
    · rw [Stmt.after, hrun]
      exact hkept
  · have hrun : (Expr.binary span op l r).run m σ =
        (f (l.run m σ).1 ((l.run m σ).2 v.id), (l.run m σ).2) :=
      Expr.run_apply hf rfl (Expr.run_of_place? (Expr.place?_of_isVar hr))
    constructor
    · rw [Stmt.Holds, hrun, hkept]
      exact hholds _ _
    · rw [Stmt.after, hrun]
      exact hkept

theorem next_of_unit {step : Step} (hs : stepOf v loop.update = .ok step)
    (hunit : step.value = none) (hcheck : loop.check.after m σ v.id = σ v.id)
    (hbody : ∀ σ, body σ v.id = σ v.id) :
    loop.next m body σ v.id = σ v.id + step.op.direction.sign := by
  obtain ⟨head, x, hupdate, hx⟩ := stepOf_eq_ok_iff.mp hs
  have hquiet : step.Quiet m (body (loop.check.after m σ)) := by
    intro y hy
    rw [hunit] at hy
    cases hy
  have hamount : step.amount m (body (loop.check.after m σ)) = 1 := by
    rw [Step.amount, hunit]
  rw [next, hupdate, Stmt.after, hx.run (hx.target?_of_unit hunit) hquiet, Function.update_self,
    hamount, hbody, hcheck, Int.mul_one]

end Loop

/-! ## The values of the arithmetic -/

theorem Expr.run_combine {m : Meaning} {σ σ₁ σ₂ : Store} {span : Span} {op : BinaryOp}
    {f : Int → Int → Int} {l r : Expr} {a b : Int} (hop : op.result? = some f)
    (hl : l.run m σ = (a, σ₁)) (hr : r.run m σ₁ = (b, σ₂)) :
    (combine span op l r).run m σ = (f a b, σ₂) :=
  run_apply hop ((run_enclosed l).trans hl) ((run_enclosed r).trans hr)

namespace Descriptor

variable {d : Descriptor} {m : Meaning} {σ : Store} {span : Span} {way : Direction}
  {init index count : Expr} {bound : Bound} {step : Step} {a b n : Int}

theorem parts_of_isValid (hvalid : d.isValid = true) (hinit : d.init? = some init)
    (hbound : d.bound = some bound) (hstep : d.step = some step) :
    d.parts = .ok (init, bound, step) := by
  simp [parts, hvalid, hinit, hbound, hstep]

/-- The operator that goes on in a direction. -/
theorem result?_of_direction (way : Direction) :
    ∃ f, (if way = .ascending then BinaryOp.add else .sub).result? = some f ∧
      ∀ a b, f a b = a + way.sign * b := by
  cases way with
  | ascending => exact ⟨_, rfl, fun a b => by rw [Direction.sign, Int.one_mul]⟩
  | descending => exact ⟨_, rfl, fun a b => by simp only [Direction.sign]; omega⟩

theorem run_distance {limit : Expr} (hinit : init.run m σ = (a, σ))
    (hlimit : limit.run m σ = (b, σ)) :
    (distance span way init limit).run m σ = (way.sign * (b - a), σ) := by
  cases way with
  | ascending =>
    rw [distance, Expr.run_combine rfl hlimit hinit, Direction.sign, Int.one_mul]
  | descending =>
    rw [distance, Expr.run_combine rfl hinit hlimit, Direction.sign]
    congr 1
    omega

theorem run_withBound {inclusive : Bool} (hcount : count.run m σ = (n, σ)) :
    (withBound span inclusive way count).run m σ =
      (n + way.sign * if inclusive then 1 else 0, σ) := by
  obtain ⟨f, hf, hsum⟩ := result?_of_direction way
  cases inclusive with
  | false => simpa [withBound] using hcount
  | true => rw [withBound, if_pos rfl, Expr.run_combine hf hcount (Expr.run_int 1), hsum, if_pos rfl]

theorem run_tripCount (hparts : d.parts = .ok (init, bound, step)) (hunit : step.value = none)
    (hinit : init.run m σ = (a, σ)) (hbound : bound.value.run m σ = (b, σ)) :
    ∃ x, d.tripCount = .ok x ∧
      x.run m σ = (step.op.direction.sign * (b - a) +
        step.op.direction.sign * if d.isInclusive then 1 else 0, σ) := by
  refine ⟨_, by rw [tripCount, hparts]; rfl, ?_⟩
  rw [hunit]
  exact run_withBound (run_distance hinit hbound)

theorem run_scaled (hquiet : step.Quiet m σ) (hindex : index.run m σ = (n, σ)) :
    (scaled span step.value index).run m σ = (step.amount m σ * n, σ) := by
  obtain ⟨op, value⟩ := step
  cases value with
  | none => rw [scaled, Expr.run_enclosed, hindex, Step.amount, Int.one_mul]
  | some s =>
    have hs : s.run m σ = ((s.run m σ).1, σ) := Prod.ext rfl (hquiet s rfl)
    rw [scaled, Expr.run_enclosed, Expr.run_combine rfl hs hindex]
    rfl

theorem run_valueAt (hparts : d.parts = .ok (init, bound, step)) (hquiet : step.Quiet m σ)
    (hinit : init.run m σ = (a, σ)) (hindex : index.run m σ = (n, σ)) :
    ∃ x, d.valueAt index = .ok x ∧
      x.run m σ = (a + step.op.direction.sign * (step.amount m σ * n), σ) := by
  obtain ⟨f, hf, hsum⟩ := result?_of_direction step.op.direction
  refine ⟨_, by rw [valueAt, hparts]; rfl, ?_⟩
  rw [Expr.run_apply hf ((Expr.run_enclosed init).trans hinit) (run_scaled hquiet hindex), hsum]

end Descriptor

/-! ## Trip counts -/

/-- What the trip count of a header misses: it takes an included bound off a descent, instead of
counting it. -/
def Descriptor.uncounted (d : Descriptor) : Int :=
  if d.isInclusive = true ∧ d.direction? = some .descending then 2 else 0

theorem Descriptor.roundsLeft_eq {d : Descriptor} {way : Direction}
    (hway : d.direction? = some way) (a b : Int) :
    way.roundsLeft d.isInclusive a b =
      way.sign * (b - a) + (way.sign * if d.isInclusive then 1 else 0) + d.uncounted := by
  rw [uncounted, hway, Direction.roundsLeft]
  cases d.isInclusive <;> cases way <;>
    simp only [Direction.sign, Option.some.injEq, reduceCtorEq, Bool.false_eq_true, and_true,
      and_false, reduceIte] <;>
    omega

namespace Loop

section

variable {loop : Loop} {vars : VarTable} {label : String} {d : Descriptor} {it : VarRef}
  {bound : Bound} {m : Meaning} {body : Store → Store} {b : Int}

/-- One round of a loop with a valid header and a step of one. The comparison counts the rounds
that are left in its own direction, and the step goes in the direction of the header. -/
theorem round_of_isValid {way direction : Direction} {σ : Store} (hd : loop.describe vars label = d)
    (hvalid : d.isValid = true) (hit : d.iteratorVar? = some it) (hbound : d.bound = some bound)
    (hunit : d.stepValue? = none) (hway : d.heading? = some way)
    (hdirection : d.direction? = some direction) (hbody : ∀ σ, body σ it.id = σ it.id)
    (hfixed : (bound.value.run m σ).1 = b ∧ (bound.value.run m σ).2 it.id = σ it.id) :
    (loop.check.Holds m σ ↔ 0 < way.roundsLeft d.isInclusive (σ it.id) b) ∧
      loop.next m body σ it.id = σ it.id + direction.sign := by
  subst hd
  obtain ⟨decl, op, x, bound', step, _, hc, hb, hs, hd⟩ := describe_of_isValid hvalid
  rw [hd] at hit hbound hunit hway hdirection ⊢
  cases hit
  cases hbound
  cases hdirection
  obtain ⟨rfl, hkept⟩ := hfixed
  obtain ⟨hholds, hafter⟩ := check_of_heading? hc hb hway hkept
  exact ⟨hholds, next_of_unit hs hunit hafter hbody⟩

/-- **The trip count is the number of iterations, but for descents to an included bound.** A valid
header has an initial value, a step of one (`++` or `--`) and a comparison that agrees with the
direction of the step. The initial value is worth `a` and the bound `b`, in all rounds, and the
body leaves the iterator as it is. Then the loop runs as often as the value of its trip count says,
with two added for a descent to an included bound, and never if that is negative. -/
theorem runsTimes_iff_tripCount {init : Expr} {σ : Store} {a : Int}
    (hd : loop.describe vars label = d) (hvalid : d.isValid = true)
    (hit : d.iteratorVar? = some it) (hinit : d.init? = some init) (hbound : d.bound = some bound)
    (hunit : d.stepValue? = none) (hagrees : d.heading? = d.direction?)
    (ha : init.run m σ = (a, σ)) (hb : bound.value.run m σ = (b, σ))
    (hbody : ∀ τ, body τ it.id = τ it.id)
    (hfixed : ∀ n τ, loop.AtCheck m body (Function.update σ it.id a) n τ →
      (bound.value.run m τ).1 = b ∧ (bound.value.run m τ).2 it.id = τ it.id) :
    ∃ count, d.tripCount = .ok count ∧ ∀ n,
      loop.RunsTimes m body (Function.update σ it.id a) n ↔
        (n : Int) = max 0 ((count.run m σ).1 + d.uncounted) := by
  obtain ⟨step, hstep⟩ : ∃ step, d.step = some step := by
    subst hd
    obtain ⟨_, _, _, _, step, _, _, _, _, hd⟩ := describe_of_isValid hvalid
    exact ⟨step, by rw [hd]⟩
  have hdirection : d.direction? = some step.op.direction := by
    simp [Descriptor.direction?, Descriptor.updateOp?, hstep]
  have hvalue : step.value = none := by simpa [Descriptor.stepValue?, hstep] using hunit
  have hparts := Descriptor.parts_of_isValid hvalid hinit hbound hstep
  obtain ⟨count, hcount, hrun⟩ := Descriptor.run_tripCount hparts hvalue ha hb
  refine ⟨count, hcount, fun n => ?_⟩
  -- The rounds that are left when the loop makes its check, by the value of the iterator then.
  let left (τ : Store) : Int := step.op.direction.roundsLeft d.isInclusive (τ it.id) b
  have hstart : left (Function.update σ it.id a) = (count.run m σ).1 + d.uncounted := by
    simp only [left, Function.update_self, hrun]
    exact Descriptor.roundsLeft_eq hdirection a b
  have hround := fun k τ hτ => round_of_isValid hd hvalid hit hbound hunit
    (hagrees.trans hdirection) hdirection hbody (hfixed k τ hτ)
  rw [← hstart]
  refine runsTimes_iff (fun k τ hτ => (hround k τ hτ).1) (fun k τ hτ _ => ?_) n
  simp only [(hround k τ hτ).2, Direction.roundsLeft_add_sign]

/-- A loop that compares against its step never ends if its check holds at the start: every round
leaves one more to run. -/
theorem not_runsTimes_of_heading?_ne {start : Store} (hd : loop.describe vars label = d)
    (hvalid : d.isValid = true) (hit : d.iteratorVar? = some it) (hbound : d.bound = some bound)
    (hunit : d.stepValue? = none) (hagainst : d.heading? ≠ d.direction?)
    (hbody : ∀ τ, body τ it.id = τ it.id)
    (hfixed : ∀ n τ, loop.AtCheck m body start n τ →
      (bound.value.run m τ).1 = b ∧ (bound.value.run m τ).2 it.id = τ it.id)
    (hstart : loop.check.Holds m start) (n : Nat) : ¬ loop.RunsTimes m body start n := by
  obtain ⟨way, u, hway, hu⟩ : ∃ way u, d.heading? = some way ∧ d.updateOp? = some u := by
    subst hd
    exact ways_of_isValid hvalid
  have hdirection : d.direction? = some u.direction := by
    rw [Descriptor.direction?, hu, Option.map_some]
  have hne : way ≠ u.direction := by
    intro h
    exact hagainst (by rw [hway, hdirection, h])
  have hround := fun k τ hτ => round_of_isValid hd hvalid hit hbound hunit hway hdirection hbody
    (hfixed k τ hτ)
  -- The check holds in every round, by the rounds that are left in its direction.
  have hholds : ∀ k τ, loop.AtCheck m body start k τ → loop.check.Holds m τ := by
    intro k τ hτ
    cases hτ with
    | start => exact hstart
    | @next k τ hτ hcheck =>
      obtain ⟨hiff, hnext⟩ := hround k τ hτ
      have hleft : 0 < way.roundsLeft d.isInclusive (τ it.id) b := hiff.mp hcheck
      rw [(hround (k + 1) _ (hτ.next hcheck)).1, hnext, Direction.roundsLeft_add_sign_of_ne hne]
      omega
  rintro ⟨τ, hτ, hfails⟩
  exact hfails (hholds n τ hτ)

end

/-- The loop `for (int i = 2; i <= n; i++)` runs three times if `n` is four. -/
theorem runsTimes_iff_tripCount_upward :
    let i : Expr := .var .none ⟨0, "i"⟩
    let n : Expr := .var .none ⟨1, "n"⟩
    let two : Expr := .literal .none (.int 2)
    let loop := Loop.over ⟨0, "i"⟩ two (.binary .none .le i n) (.unaryBehind .none .increment i)
    let d := loop.describe (.ints ["i", "n"]) ""
    let m : Meaning := fun _ σ => (0, σ)
    d.isValid = true ∧ loop.RunsTimes m id (Function.update (fun _ => 4) 0 2) 3 := by
  intro i n two loop d m
  have hvalid : d.isValid = true := by decide
  have hit : d.iteratorVar? = some ⟨0, "i"⟩ := rfl
  have hbound : d.bound = some ⟨n, true⟩ := rfl
  have hagrees : d.heading? = d.direction? := by decide
  have htwo : two.run m (fun _ => 4) = (2, fun _ => 4) := rfl
  have hn : n.run m (fun _ => 4) = (4, fun _ => 4) := rfl
  have hkept : ∀ τ : Store, id τ 0 = τ 0 := fun _ => rfl
  have hfixed : ∀ k τ, loop.AtCheck m id (Function.update (fun _ => 4) 0 2) k τ → τ 1 = 4 := by
    intro k τ hτ
    induction hτ with
    | start => rfl
    | next _ _ ih => exact ih
  obtain ⟨count, hcount, hruns⟩ := runsTimes_iff_tripCount rfl hvalid hit rfl hbound rfl hagrees
    htwo hn hkept fun k τ hτ => ⟨hfixed k τ hτ, rfl⟩
  cases hcount
  exact ⟨hvalid, (hruns 3).mpr (by decide)⟩

/-- The loop `for (int i = 5; i >= 3; i--)` runs three times. Its trip count is one. -/
theorem runsTimes_ne_tripCount :
    let i : Expr := .var .none ⟨0, "i"⟩
    let five : Expr := .literal .none (.int 5)
    let three : Expr := .literal .none (.int 3)
    let loop := Loop.over ⟨0, "i"⟩ five (.binary .none .ge i three) (.unaryBehind .none .decrement i)
    let d := loop.describe (.ints ["i"]) ""
    let m : Meaning := fun _ σ => (0, σ)
    d.isValid = true ∧ d.stepValue?.isNone = true ∧ d.heading? = d.direction? ∧
      loop.RunsTimes m id (Function.update (fun _ => 0) 0 5) 3 ∧
      ∃ count, d.tripCount = .ok count ∧ (count.run m fun _ => 0).1 = 1 := by
  intro i five three loop d m
  have hruns : loop.RunsTimes m id (Function.update (fun _ => 0) 0 5) 3 := by
    refine ⟨_, .next (.next (.next .start ?_) ?_) ?_, fun hholds => hholds rfl⟩
    · exact Int.one_ne_zero
    · exact Int.one_ne_zero
    · exact Int.one_ne_zero
  exact ⟨by decide, by decide, by decide, hruns, _, rfl, rfl⟩

/-! ## Values at an index -/

/-- So many updates with a fixed step move the iterator by so many steps, and no other variable. -/
theorem iterate_update {loop : Loop} {v : VarRef} {step : Step} {m : Meaning} {σ : Store} {s : Int}
    (hs : stepOf v loop.update = .ok step) (htarget : loop.update.target? = some v.id)
    (hfixed : ∀ n, step.Quiet m (Function.update σ v.id n) ∧
      step.amount m (Function.update σ v.id n) = s) (a : Int) (k : Nat) :
    (loop.update.after m)^[k] (Function.update σ v.id a) =
      Function.update σ v.id (a + step.op.direction.sign * (s * k)) := by
  obtain ⟨head, x, hupdate, hx⟩ := stepOf_eq_ok_iff.mp hs
  rw [hupdate] at htarget ⊢
  induction k with
  | zero => simp
  | succ k ih =>
    obtain ⟨hquiet, hamount⟩ := hfixed (a + step.op.direction.sign * (s * k))
    rw [Function.iterate_succ_apply', ih, Stmt.after, hx.run htarget hquiet, hamount,
      Function.update_self, Function.update_idem]
    congr 1
    rw [Int.natCast_succ, Int.mul_add, Int.mul_add, Int.mul_one, Int.add_assoc]

/-- **The value at an index is that of the iterator after so many updates.** A valid header has an
initial value, and its update assigns to the iterator. The step is worth the same, and evaluating
it changes nothing, whatever the iterator holds. -/
theorem iterate_update_eq_valueAt {loop : Loop} {vars : VarTable} {label : String} {d : Descriptor}
    {it : VarRef} {init : Expr} {step : Step} {m : Meaning} {σ : Store} {a s : Int}
    (hd : loop.describe vars label = d) (hvalid : d.isValid = true)
    (hit : d.iteratorVar? = some it) (hinit : d.init? = some init) (hstep : d.step = some step)
    (htarget : loop.update.target? = some it.id) (ha : init.run m σ = (a, σ))
    (hfixed : ∀ n, step.Quiet m (Function.update σ it.id n) ∧
      step.amount m (Function.update σ it.id n) = s) (k : Nat) (span : Span) :
    ∃ x, d.valueAt (.literal span (.int k)) = .ok x ∧
      (loop.update.after m)^[k] (Function.update σ it.id a) it.id = (x.run m σ).1 := by
  subst hd
  obtain ⟨decl, op, _, bound, step', _, _, _, hs, hd⟩ := describe_of_isValid hvalid
  rw [hd] at hit hinit hstep ⊢
  cases hit
  cases hstep
  -- The step has its fixed value in the store before the loop as well.
  obtain ⟨hquiet, hamount⟩ := hfixed (σ decl.var.id)
  rw [Function.update_eq_self] at hquiet hamount
  have hparts := Descriptor.parts_of_isValid rfl hinit rfl rfl
  have hindex : (Expr.literal span (.int k)).run m σ = ((k : Int), σ) := Expr.run_int k
  obtain ⟨x, hx, hrun⟩ := Descriptor.run_valueAt hparts hquiet ha hindex
  refine ⟨x, hx, ?_⟩
  rw [iterate_update hs htarget hfixed, Function.update_self, hrun, hamount]

/-- The iterator of `for (int i = 7; i > 0; i -= s)` is one after three updates if `s` is two. -/
theorem iterate_update_eq_valueAt_minus :
    let i : Expr := .var .none ⟨0, "i"⟩
    let s : Expr := .var .none ⟨1, "s"⟩
    let seven : Expr := .literal .none (.int 7)
    let zero : Expr := .literal .none (.int 0)
    let loop := Loop.over ⟨0, "i"⟩ seven (.binary .none .gt i zero) (.binary .none .subAssign i s)
    let d := loop.describe (.ints ["i", "s"]) ""
    let m : Meaning := fun _ σ => (0, σ)
    d.isValid = true ∧ (loop.update.after m)^[3] (Function.update (fun _ => 2) 0 7) 0 = 1 := by
  intro i s seven zero loop d m
  have hvalid : d.isValid = true := by decide
  have hit : d.iteratorVar? = some ⟨0, "i"⟩ := rfl
  have hstep : d.step = some ⟨.subAssign, some s⟩ := rfl
  have hseven : seven.run m (fun _ => 2) = (7, fun _ => 2) := rfl
  have hlocal : m.Local := fun _ _ _ _ _ => rfl
  have hmentions : ∀ x ∈ some s, x.mentions 0 = false := by
    intro x hx
    cases hx
    rfl
  have hquiet : Step.Quiet m (fun _ => 2) ⟨.subAssign, some s⟩ := by
    intro x hx
    cases hx
    rfl
  obtain ⟨x, hx, hvalue⟩ := iterate_update_eq_valueAt rfl hvalid hit rfl hstep rfl hseven
    (Step.fixed_of_not_mentions hlocal hmentions hquiet) 3 .none
  cases hx
  exact ⟨hvalid, hvalue⟩

end Loop

end LoopNest
