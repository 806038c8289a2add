import LoopNest.Header

/-!
# The arithmetic of iterations

From the facts in a header, expressions for the number of iterations and for the value of the
iterator in an iteration. Nothing is computed: every operand is put in parentheses, and every
new node has the place of the iterator's declaration.

    trip count          (bound) - (init)                 ascending
                        (init) - (bound)                 descending
                        ... + (1),  ... - (1)            if the bound is included
                        ... - (step),  ... + (step)      if there is a step value
    value at an index   (init) + (index),  (init) + ((step) * (index))
                        and likewise with - if descending
-/

namespace LoopNest

/-- Why there is no arithmetic for a header. -/
inductive ArithmeticError where
  | invalidHeader
  | noInitialValue
  | incompleteHeader
deriving DecidableEq, Repr

/-- The message of an error of the named operation. -/
def ArithmeticError.message (operation : String) : ArithmeticError → String
  | invalidHeader => s!"{operation} requires a valid loop descriptor"
  | noInitialValue => s!"{operation} requires an iterator with an initial value"
  | incompleteHeader => "valid descriptor is missing its check value or direction"

/-- The operands, in parentheses, joined by an operator. -/
def Expr.combine (span : Span) (op : BinaryOp) (left right : Expr) : Expr :=
  .binary span op left.enclosed right.enclosed

namespace Descriptor

/-- The initial value, the bound and the step, of which the arithmetic is made. -/
def parts (d : Descriptor) : Except ArithmeticError (Expr × Bound × Step) :=
  if !d.isValid then .error .invalidHeader
  else
    match d.init?, d.bound, d.step with
    | none, _, _ => .error .noInitialValue
    | some init, some bound, some step => .ok (init, bound, step)
    | some _, _, _ => .error .incompleteHeader

/-- The distance from the initial value to the bound. -/
def distance (span : Span) : Direction → Expr → Expr → Expr
  | .ascending, init, bound => .combine span .sub bound init
  | .descending, init, bound => .combine span .sub init bound

/-- One more value if the bound is included. -/
def withBound (span : Span) (inclusive : Bool) (direction : Direction) (count : Expr) : Expr :=
  if inclusive then
    .combine span (if direction = .ascending then .add else .sub) count (.literal span (.int 1))
  else count

/-- The step value enters the count by a sum, against the direction. -/
def withStep (span : Span) (direction : Direction) (step : Option Expr) (count : Expr) : Expr :=
  match step with
  | some s => .combine span (if direction = .ascending then .sub else .add) count s
  | none => count

/-- The number of iterations. -/
def tripCount (d : Descriptor) : Except ArithmeticError Expr := do
  let (init, bound, step) ← d.parts
  let direction := step.op.direction
  let span := d.iteratorSpan
  return withStep span direction step.value
    (withBound span d.isInclusive direction (distance span direction init bound.value))

/-- An index times the step value, in parentheses. -/
def scaled (span : Span) (step : Option Expr) (index : Expr) : Expr :=
  match step with
  | some s => (Expr.combine span .mul s index).enclosed
  | none => index.enclosed

/-- The value of the iterator in the iteration of that index. -/
def valueAt (d : Descriptor) (index : Expr) : Except ArithmeticError Expr := do
  let (init, _, step) ← d.parts
  let op : BinaryOp := if step.op.direction = .ascending then .add else .sub
  return .binary d.iteratorSpan op init.enclosed (scaled d.iteratorSpan step.value index)

end Descriptor

end LoopNest
