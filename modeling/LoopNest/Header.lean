import LoopNest.Expr.Occurrence
import LoopNest.Rejection

/-!
# Loop headers

A loop that is mapped to a parallel level has a header of the form

    for (T i = a; i < b; ++i)

where `T` is `char`, `short` or `int`, the comparison is one of `<`, `<=`, `>=` and `>` with
the iterator on either side, and the update is `++` or `--` on either side of the iterator or
`+=` or `-=` with the iterator as an operand.

* `Descriptor`: the facts in a header, up to the first broken rule.
* `Loop.describe`: reads a header.
-/

namespace LoopNest

/-! ## Steps -/

inductive Direction where
  | ascending | descending
deriving DecidableEq, Repr

def Direction.text : Direction → String
  | ascending => "ascending"
  | descending => "descending"

/-- How a loop steps its iterator. -/
inductive UpdateOp where
  | preIncrement | preDecrement | postIncrement | postDecrement | addAssign | subAssign
deriving DecidableEq, Repr

namespace UpdateOp

def all : List UpdateOp :=
  [preIncrement, preDecrement, postIncrement, postDecrement, addAssign, subAssign]

def text : UpdateOp → String
  | preIncrement => "++it"
  | preDecrement => "--it"
  | postIncrement => "it++"
  | postDecrement => "it--"
  | addAssign => "+="
  | subAssign => "-="

def direction : UpdateOp → Direction
  | preIncrement | postIncrement | addAssign => .ascending
  | preDecrement | postDecrement | subAssign => .descending

def ofUnaryBefore? : UnaryOp → Option UpdateOp
  | .increment => some preIncrement
  | .decrement => some preDecrement
  | _ => none

def ofUnaryBehind? : UnaryOp → Option UpdateOp
  | .increment => some postIncrement
  | .decrement => some postDecrement
  | _ => none

def ofBinary? : BinaryOp → Option UpdateOp
  | .addAssign => some addAssign
  | .subAssign => some subAssign
  | _ => none

end UpdateOp

/-- The comparisons that a header may make. -/
def BinaryOp.isComparison : BinaryOp → Bool
  | .lt | .le | .ge | .gt => true
  | _ => false

def BinaryOp.isInclusive : BinaryOp → Bool
  | .le | .ge => true
  | _ => false

/-! ## Facts -/

/-- The bound of a comparison, and whether it is the right operand. -/
structure Bound where
  value : Expr
  onRight : Bool
deriving Repr

/-- The step of an update; without a value it is one. -/
structure Step where
  op : UpdateOp
  value : Option Expr
deriving Repr

/-- The facts in a header, up to the first broken rule. -/
structure Descriptor where
  /-- The variable that the header declares, with its initial value. -/
  iterator : Option Declarator := none
  comparison : Option BinaryOp := none
  bound : Option Bound := none
  step : Option Step := none
  failure : Option Rejection := none
deriving Repr, Inhabited

namespace Descriptor

def isValid (d : Descriptor) : Bool := d.failure.isNone

def iteratorVar? (d : Descriptor) : Option VarRef := d.iterator.map Declarator.var

/-- The place of the iterator's declaration. -/
def iteratorSpan (d : Descriptor) : Span := (d.iterator.map Declarator.span).getD .none

def init? (d : Descriptor) : Option Expr := d.iterator.bind Declarator.value

def isInclusive (d : Descriptor) : Bool := (d.comparison.map BinaryOp.isInclusive).getD false

def boundOnRight (d : Descriptor) : Bool := (d.bound.map Bound.onRight).getD false

def updateOp? (d : Descriptor) : Option UpdateOp := d.step.map Step.op

def stepValue? (d : Descriptor) : Option Expr := d.step.bind Step.value

def direction? (d : Descriptor) : Option Direction := d.updateOp?.map UpdateOp.direction

end Descriptor

/-! ## Reading a header -/

/-- A broken rule and its place. -/
abbrev Broken := Violation × Span

/-- The one variable that the first clause declares. -/
def iteratorOf (vars : VarTable) (init : Stmt) : Except Broken Declarator :=
  match init.declarators? with
  | none | some [] => .error (.expectedDeclaration, init.span)
  | some (_ :: second :: _) => .error (.multipleIterators, second.span)
  | some [d] =>
    if ((vars.type? d.var.id).map VarType.isIteratorType).getD false then .ok d
    else .error (.invalidIteratorType, d.span)

/-- The comparison that the second clause makes. -/
def comparisonOf (iterator : String) (check : Stmt) : Except Broken (BinaryOp × Expr) :=
  match check with
  | .expression _ x =>
    match x with
    | .binary _ op _ _ =>
      if op.isComparison then .ok (op, x) else .error (.invalidCheckOperator iterator, x.span)
    | _ => .error (.expectedComparison iterator, x.span)
  | _ => .error (.expectedCheckExpression iterator, check.span)

/-- The bound with which a comparison compares the iterator. -/
def boundOf (iterator : VarRef) (comparison : Expr) : Except Broken Bound :=
  match comparison.side iterator.id with
  | .left bound => .ok ⟨bound, true⟩
  | .right bound => .ok ⟨bound, false⟩
  | .neither => .error (.checkMissingIterator iterator.name, comparison.span)

/-- The operator of an update, its step value and whether it is applied to the iterator.
Nothing if the expression has no operator on top that could step a variable. -/
def updateParts? (id : Nat) (x : Expr) : Option (Option UpdateOp × Option Expr × Bool) :=
  match x with
  | .unaryBefore _ op _ => some (UpdateOp.ofUnaryBefore? op, none, x.isUnaryOn id)
  | .unaryBehind _ op _ => some (UpdateOp.ofUnaryBehind? op, none, x.isUnaryOn id)
  | .binary _ op _ _ => some (UpdateOp.ofBinary? op, (x.side id).other?, (x.side id).isMatch)
  | _ => none

/-- The step that the third clause makes. -/
def stepOf (iterator : VarRef) (update : Stmt) : Except Broken Step :=
  match update with
  | .expression _ x =>
    match updateParts? iterator.id x with
    | none => .error (.invalidUpdateOperator iterator.name, update.span)
    | some (none, _, _) => .error (.invalidUpdateOperator iterator.name, x.span)
    | some (some op, value, true) => .ok ⟨op, value⟩
    | some (some _, _, false) => .error (.updateMissingIterator iterator.name, x.startNode.span)
  | _ => .error (.expectedUpdateExpression iterator.name, update.span)

/-- The facts in the header of a loop. The clauses are read in their order up to the first
broken rule; the facts before it stay, the operator of a comparison without the iterator
among them. -/
def Loop.describe (loop : Loop) (vars : VarTable) (label : String) : Descriptor :=
  let rejected (b : Broken) : Option Rejection := some ⟨b.1, b.2, label⟩
  match iteratorOf vars loop.init with
  | .error b => { failure := rejected b }
  | .ok d =>
    match comparisonOf d.var.name loop.check with
    | .error b => { iterator := some d, failure := rejected b }
    | .ok (op, comparison) =>
      match boundOf d.var comparison with
      | .error b => { iterator := some d, comparison := some op, failure := rejected b }
      | .ok bound =>
        match stepOf d.var loop.update with
        | .error b =>
          { iterator := some d, comparison := some op, bound := some bound, failure := rejected b }
        | .ok step =>
          { iterator := some d, comparison := some op, bound := some bound, step := some step }

end LoopNest
