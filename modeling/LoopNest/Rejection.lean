import LoopNest.Source.Span
import LoopNest.Stmt

/-!
# Rejections

The rules that loops and kernels may break. A `Rejection` is a broken rule with the place and
the label of the source; rejections do not stop a check, they are what it finds.
-/

namespace LoopNest

/-- A broken rule, with the names that its message needs. -/
inductive Violation where
  | expectedDeclaration
  | multipleIterators
  | invalidIteratorType
  | expectedCheckExpression (iterator : String)
  | expectedComparison (iterator : String)
  | invalidCheckOperator (iterator : String)
  | checkMissingIterator (iterator : String)
  | expectedUpdateExpression (iterator : String)
  | invalidUpdateOperator (iterator : String)
  | updateMissingIterator (iterator : String)
  | missingInitializer (iterator : String)
  | missingOuterLoop (kernel : String)
  | missingInnerLoop
  | outerInsideInner
  | innerOutsideOuter
  | invalidStatementBetweenLoops (level : Level)
  | attributeOnNonLoop (level : Level)
  | shadowedIterator (iterator : String)
deriving DecidableEq, Repr

/-- What a broken rule is about. -/
inductive Category where
  | structural | type | operator | identity
deriving DecidableEq, Repr

def Category.name : Category → String
  | structural => "Structural"
  | type => "Type"
  | operator => "Operator"
  | identity => "Identity"

namespace Violation

/-- The name of the rule in a report. -/
def name : Violation → String
  | expectedDeclaration => "ExpectedDeclaration"
  | multipleIterators => "MultipleIterators"
  | invalidIteratorType => "InvalidIteratorType"
  | expectedCheckExpression _ => "ExpectedCheckExpression"
  | expectedComparison _ => "ExpectedComparison"
  | invalidCheckOperator _ => "InvalidCheckOperator"
  | checkMissingIterator _ => "CheckMissingIterator"
  | expectedUpdateExpression _ => "ExpectedUpdateExpression"
  | invalidUpdateOperator _ => "InvalidUpdateOperator"
  | updateMissingIterator _ => "UpdateMissingIterator"
  | missingInitializer _ => "MissingInitializer"
  | missingOuterLoop _ => "MissingOuterLoop"
  | missingInnerLoop => "MissingInnerLoop"
  | outerInsideInner => "OuterInsideInner"
  | innerOutsideOuter => "InnerOutsideOuter"
  | invalidStatementBetweenLoops _ => "InvalidStatementBetweenLoops"
  | attributeOnNonLoop _ => "AttributeOnNonLoop"
  | shadowedIterator _ => "ShadowedIterator"

def category : Violation → Category
  | invalidIteratorType => .type
  | invalidCheckOperator _ | invalidUpdateOperator _ => .operator
  | checkMissingIterator _ | updateMissingIterator _ | shadowedIterator _ => .identity
  | _ => .structural

def message : Violation → String
  | expectedDeclaration => "Expected a declaration statement"
  | multipleIterators => "Can only have 1 iterator variable"
  | invalidIteratorType => "Iterator variable needs to be of type [char, short, int]"
  | expectedCheckExpression i | checkMissingIterator i =>
    s!"Expected comparing [{i}] with some bound"
  | expectedComparison i | invalidCheckOperator i =>
    s!"Expected to compare [{i}] with one of these operators [<, <=, >=, >]"
  | expectedUpdateExpression i => s!"Expected to update [{i}]"
  | invalidUpdateOperator i | updateMissingIterator i =>
    s!"Expected update [{i}] with one of these operators [++, --, +=, -=]"
  | missingInitializer i => s!"Iterator [{i}] needs an initial value"
  | missingOuterLoop k => s!"Kernel [{k}] requires at least one @outer loop"
  | missingInnerLoop => "@outer loop nest requires at least one @inner loop"
  | outerInsideInner => "@outer loops cannot be nested inside @inner loops"
  | innerOutsideOuter => "@inner loops must be nested inside an @outer loop"
  | invalidStatementBetweenLoops l =>
    s!"Only declarations and loops may appear between nested {l.text} loops"
  | attributeOnNonLoop l => s!"{l.text} can only be applied to for-loops"
  | shadowedIterator i => s!"Iterator [{i}] cannot be redeclared inside its loop"

end Violation

/-- A broken rule, where it is broken and the label of the source. -/
structure Rejection where
  violation : Violation
  span : Span
  label : String
deriving DecidableEq, Repr

namespace Rejection

/-- The message stands behind the label, if there is one. -/
def message (r : Rejection) : String :=
  if r.label.isEmpty then r.violation.message else s!"[{r.label}] {r.violation.message}"

def text (r : Rejection) : String := located r.message r.span

end Rejection

end LoopNest
