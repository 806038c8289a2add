import LoopNest.Proofs.Header.Clauses

/-!
# The way a header goes

A comparison lets the iterator go up or down until it fails, and an update makes it go up or
down. A header is read clause by clause, so that nothing relates the two ways to each other.

* `Descriptor.heading?`: the way that the comparison lets the iterator go.
* `Loop.describe_reversed`: a header with the opposite comparison has the same facts but for its
  operator.
* `Loop.heading_of_isValid`: of a valid header and the one with the opposite comparison, both are
  valid, and exactly one compares the way it steps.
-/

namespace LoopNest

/-! ## Comparisons -/

/-- The way in which a variable may go until its comparison with a bound fails. -/
def BinaryOp.heading? (op : BinaryOp) (boundOnRight : Bool) : Option Direction :=
  match op, boundOnRight with
  | .lt, true | .le, true | .gt, false | .ge, false => some .ascending
  | .gt, true | .ge, true | .lt, false | .le, false => some .descending
  | _, _ => none

def Descriptor.heading? (d : Descriptor) : Option Direction :=
  d.comparison.bind fun op => op.heading? d.boundOnRight

def Direction.opposite : Direction → Direction
  | ascending => descending
  | descending => ascending

/-- The comparison that asks for the opposite order. -/
def BinaryOp.reversed : BinaryOp → BinaryOp
  | .lt => .gt
  | .le => .ge
  | .gt => .lt
  | .ge => .le
  | op => op

/-- The same operands in the opposite comparison. -/
def Expr.reversed : Expr → Expr
  | binary s op l r => binary s op.reversed l r
  | x => x

/-- The loop with the opposite comparison in its header. -/
def Loop.reversed (loop : Loop) : Loop :=
  match loop.check with
  | .expression head x => { loop with check := .expression head x.reversed }
  | _ => loop

def Descriptor.reversed (d : Descriptor) : Descriptor :=
  { d with comparison := d.comparison.map BinaryOp.reversed }

theorem Direction.opposite_ne (way : Direction) : way.opposite ≠ way := by
  cases way <;> decide

theorem Direction.eq_opposite_of_ne {way other : Direction} (h : other ≠ way) :
    way.opposite = other := by
  cases way <;> cases other <;> first | rfl | exact absurd rfl h

theorem BinaryOp.heading?_isSome_of_isComparison {op : BinaryOp} (h : op.isComparison = true)
    (boundOnRight : Bool) : ∃ way, op.heading? boundOnRight = some way := by
  cases op <;> cases h <;> cases boundOnRight <;> exact ⟨_, rfl⟩

theorem BinaryOp.heading?_reversed (op : BinaryOp) (boundOnRight : Bool) :
    op.reversed.heading? boundOnRight = (op.heading? boundOnRight).map Direction.opposite := by
  cases op <;> cases boundOnRight <;> rfl

theorem BinaryOp.isComparison_reversed (op : BinaryOp) :
    op.reversed.isComparison = op.isComparison := by
  cases op <;> rfl

theorem Descriptor.heading?_reversed (d : Descriptor) :
    d.reversed.heading? = d.heading?.map Direction.opposite := by
  unfold heading? reversed boundOnRight
  cases d.comparison with
  | none => rfl
  | some op => exact op.heading?_reversed _

/-! ## Headers with the opposite comparison -/

theorem boundOf_reversed (v : VarRef) (x : Expr) : boundOf v x.reversed = boundOf v x := by
  cases x <;> rfl

theorem comparisonOf_reversed (name : String) (head : StmtHead) (x : Expr) :
    comparisonOf name (.expression head x.reversed) =
      (comparisonOf name (.expression head x)).map fun c => (c.1.reversed, c.2.reversed) := by
  cases x with
  | binary s op l r =>
    simp only [Expr.reversed, comparisonOf, BinaryOp.isComparison_reversed]
    split <;> rfl
  | _ => rfl

/-- Reading the header with the opposite comparison gives the same facts, but for the operator. -/
theorem Loop.describe_reversed (loop : Loop) (vars : VarTable) (label : String) :
    loop.reversed.describe vars label = (loop.describe vars label).reversed := by
  obtain ⟨init, check, update, body⟩ := loop
  cases hi : iteratorOf vars init with
  | error e =>
    cases check <;> simp only [reversed, describe, hi] <;> rfl
  | ok d =>
    cases check with
    | expression head x =>
      simp only [reversed, describe, hi, comparisonOf_reversed]
      cases comparisonOf d.var.name (.expression head x) with
      | error e => rfl
      | ok c =>
        simp only [Except.map, boundOf_reversed]
        cases boundOf d.var c.2 with
        | error e => rfl
        | ok b => cases stepOf d.var update <;> rfl
    | _ => simp only [reversed, describe, hi, comparisonOf]; rfl

/-! ## Valid headers -/

/-- The comparison of a valid header allows one of the two ways, and its update makes a step. -/
theorem Loop.ways_of_isValid {loop : Loop} {vars : VarTable} {label : String}
    (h : (loop.describe vars label).isValid = true) :
    ∃ way op, (loop.describe vars label).heading? = some way ∧
      (loop.describe vars label).updateOp? = some op := by
  obtain ⟨d, op, x, b, step, _, hc, _, _, hd⟩ := describe_of_isValid h
  obtain ⟨hop, _⟩ := comparisonOf_eq_ok_iff.mp hc
  obtain ⟨way, hway⟩ := BinaryOp.heading?_isSome_of_isComparison hop b.onRight
  refine ⟨way, step.op, ?_, ?_⟩
  · rw [hd]
    exact hway
  · rw [hd]
    rfl

/-- **A valid header may compare against its step.** The comparison of a valid header allows one
way, and its update takes one: up for `++` and `+=`, down for `--` and `-=`. Nothing relates the
two: the header with the opposite comparison is valid as well and takes the same way, so that
exactly one of the two headers compares the way it steps. -/
theorem Loop.heading_of_isValid {loop : Loop} {vars : VarTable} {label : String}
    (h : (loop.describe vars label).isValid = true) :
    let d := loop.describe vars label
    let r := loop.reversed.describe vars label
    (d.heading? = some .ascending ∨ d.heading? = some .descending) ∧
      (d.direction? = some .ascending ↔
        d.updateOp? ∈ [some .preIncrement, some .postIncrement, some .addAssign]) ∧
      (d.direction? = some .descending ↔
        d.updateOp? ∈ [some .preDecrement, some .postDecrement, some .subAssign]) ∧
      r.isValid = true ∧ r.direction? = d.direction? ∧
      (r.heading? = r.direction? ↔ d.heading? ≠ d.direction?) := by
  intro d r
  obtain ⟨way, op, hway, hop⟩ := ways_of_isValid h
  have hr : r = d.reversed := loop.describe_reversed vars label
  have hdirection : d.direction? = some op.direction := by
    rw [Descriptor.direction?, hop, Option.map_some]
  have hrdirection : r.direction? = some op.direction := by rw [hr]; exact hdirection
  have hrheading : r.heading? = some way.opposite := by
    rw [hr, Descriptor.heading?_reversed, hway, Option.map_some]
  refine ⟨?_, ?_, ?_, ?_, ?_, ?_⟩
  · rw [hway]
    cases way
    · exact Or.inl rfl
    · exact Or.inr rfl
  · rw [hdirection, hop]
    cases op <;> decide
  · rw [hdirection, hop]
    cases op <;> decide
  · rw [hr]
    exact h
  · rw [hrdirection, hdirection]
  · rw [hrheading, hrdirection, hway, hdirection, ne_eq, Option.some.injEq, Option.some.injEq]
    constructor
    · intro heq hway
      exact way.opposite_ne (heq.trans hway.symm)
    · intro hne
      exact Direction.eq_opposite_of_ne fun heq => hne heq.symm

/-- The header `for (int i = 0; i > n; ++i)` and the one with the opposite comparison. -/
theorem Loop.heading_of_isValid_against :
    let i : Expr := .var .none ⟨0, "i"⟩
    let n : Expr := .var .none ⟨1, "n"⟩
    let loop := Loop.over ⟨0, "i"⟩ (.literal .none (.int 0)) (.binary .none .gt i n)
      (.unaryBefore .none .increment i)
    let vars := VarTable.ints ["i", "n"]
    (loop.describe vars "").isValid = true ∧ (loop.reversed.describe vars "").isValid = true ∧
      (loop.reversed.describe vars "").heading? = (loop.reversed.describe vars "").direction? := by
  intro i n loop vars
  have hvalid : (loop.describe vars "").isValid = true := by decide
  obtain ⟨_, _, _, hreversed, _, hiff⟩ := heading_of_isValid hvalid
  exact ⟨hvalid, hreversed, hiff.mpr (by decide)⟩

/-- The header `for (int i = 0; i > n; ++i)` is valid and steps up, though its bound is on the
right of `>`. -/
theorem Loop.direction_against_comparison :
    let i : Expr := .var .none ⟨0, "i"⟩
    let n : Expr := .var .none ⟨1, "n"⟩
    let loop := Loop.over ⟨0, "i"⟩ (.literal .none (.int 0)) (.binary .none .gt i n)
      (.unaryBefore .none .increment i)
    let d := loop.describe (.ints ["i", "n"]) ""
    d.isValid = true ∧ d.comparison = some .gt ∧ d.boundOnRight = true ∧
      d.direction? = some .ascending := by
  decide

end LoopNest
