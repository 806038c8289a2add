import LoopNest.Expr
import LoopNest.Grammar.Reader

/-!
# The grammar of expressions

From the loosest to the tightest: assignments, which associate to the right; six levels of
operators that associate to the left; operators in front of an operand; operators and
subscripts behind it; and the primary expressions.

Only what stands in parentheses or brackets is read by the whole grammar again. The readers
below take that as a parameter; `Grammar.expression` ties the knot, at most as often as there
are tokens left, since each time one is taken before.
-/

namespace LoopNest

namespace Token.Kind

/-- The operator in front of an operand that a token writes. -/
def unaryBefore? : Token.Kind → Option UnaryOp
  | symbol .minus => some .negate
  | symbol .bang => some .not
  | symbol .plusPlus => some .increment
  | symbol .minusMinus => some .decrement
  | _ => none

/-- The operator behind an operand that a token writes. -/
def unaryBehind? : Token.Kind → Option UnaryOp
  | symbol .plusPlus => some .increment
  | symbol .minusMinus => some .decrement
  | _ => none

/-- The operator between two operands that a token writes. -/
def binary? : Token.Kind → Option BinaryOp
  | symbol s => BinaryOp.all.find? fun op => op.text == s.text
  | _ => none

/-- The operator of that precedence that a token writes. -/
def binaryAt? (precedence : Nat) (k : Token.Kind) : Option BinaryOp :=
  k.binary?.filter fun op => op.precedence == precedence

end Token.Kind

namespace Expr

/-- Two operands joined by an operator. -/
def join (left : Expr) (op : BinaryOp) (right : Expr) : Expr :=
  binary (left.span.merge right.span) op left right

/-- Operands joined from the left. -/
def joinLeft (first : Expr) (rest : List (BinaryOp × Expr)) : Expr :=
  rest.foldl (fun left next => left.join next.1 next.2) first

/-- Operands joined from the right. -/
def joinRight (first : Expr) : List (BinaryOp × Expr) → Expr
  | [] => first
  | (op, next) :: rest => first.join op (joinRight next rest)

/-- Operators with their places in front of an operand, the nearest one last. -/
def withOperatorsBefore (ops : List (UnaryOp × Span)) (x : Expr) : Expr :=
  ops.foldr (fun op x => unaryBefore (op.2.merge x.span) op.1 x) x

/-- What may stand behind an operand, with the place of its last token. -/
inductive Suffix where
  | operator (op : UnaryOp) (stop : Span)
  | subscript (index : Expr) (stop : Span)

def withSuffix (x : Expr) : Suffix → Expr
  | .operator op stop => unaryBehind (x.span.merge stop) op x
  | .subscript index stop => Expr.subscript (x.span.merge stop) x index

end Expr

namespace Grammar

open Parse

/-- The greatest value of a whole number in a source text. -/
def maxInteger : Nat := Nat.pow 2 63 - 1

def integerLiteral (lexeme : String) : Option Literal :=
  let value := Text.digitsValue lexeme.toList
  if value ≤ maxInteger then some (.int value) else none

/-- A float literal without its suffix. -/
def floatDigits (lexeme : String) : List Char :=
  lexeme.toList.takeWhile fun c => c != 'f' && c != 'F'

def floatLiteral (lexeme : String) : Option Literal :=
  (Decimal.read? (floatDigits lexeme)).map fun d => .float (.ofDecimal false d)

/-- Arguments up to a closing parenthesis, which is left. -/
def arguments (inner : Parse Expr) : Parse (List Expr) := do
  if (← get).seesSymbol .rightParen then pure [] else commaSeparated inner

/-- A call, or a variable if no parenthesis follows the name. -/
def named (inner : Parse Expr) (name : String) (start : Span) : Parse Expr := do
  if ← accept .leftParen then
    let args ← arguments inner
    expect .rightParen .arguments
    return .call (start.merge (← get).previous.span) name args
  else
    return .var start (← resolve name start)

def literal (value : Option Literal) (otherwise : Problem.Cause) (span : Span) : Parse Expr :=
  match value with
  | some value => do
    advance
    return .literal span value
  | none => fail otherwise

def primary (inner : Parse Expr) : Parse Expr := do
  let token := (← get).current
  match token.kind with
  | .integer => literal (integerLiteral token.lexeme) .integerTooLarge token.span
  | .float => literal (floatLiteral token.lexeme) .malformedFloat token.span
  | .keyword (.bool value) => literal (some (.bool value)) .missingExpression token.span
  | .identifier =>
    advance
    named inner token.lexeme token.span
  | .symbol .leftParen =>
    advance
    let x ← inner
    expect .rightParen
    return .parentheses (token.span.merge (← get).previous.span) x
  | _ => fail .missingExpression

def suffix (inner : Parse Expr) : Parse (Option Expr.Suffix) := do
  let kind := (← get).current.kind
  match kind.unaryBehind? with
  | some op =>
    advance
    return some (.operator op (← get).previous.span)
  | none =>
    if ← accept .leftBracket then
      let index ← inner
      expect .rightBracket
      return some (.subscript index (← get).previous.span)
    else pure none

/-- A primary expression with operators and subscripts behind it. -/
def suffixed (inner : Parse Expr) : Parse Expr := do
  let x ← primary inner
  return (← many (suffix inner)).foldl Expr.withSuffix x

def operatorBefore : Parse (Option (UnaryOp × Span)) := do
  let token := (← get).current
  match token.kind.unaryBefore? with
  | some op =>
    advance
    return some (op, token.span)
  | none => pure none

/-- A suffixed expression with operators in front of it. -/
def unary (inner : Parse Expr) : Parse Expr := do
  let ops ← many operatorBefore
  return (← suffixed inner).withOperatorsBefore ops

/-- An operator of that precedence and its right operand. -/
def operatorAndOperand (precedence : Nat) (operand : Parse Expr) :
    Parse (Option (BinaryOp × Expr)) := do
  match (← get).current.kind.binaryAt? precedence with
  | some op =>
    advance
    return some (op, ← operand)
  | none => pure none

/-- Operands joined by operators of the `n` tightest levels. -/
def operands (inner : Parse Expr) : Nat → Parse Expr
  | 0 => unary inner
  | n + 1 => do
    let first ← operands inner n
    return first.joinLeft (← many (operatorAndOperand (7 - n) (operands inner n)))

def assignment (inner : Parse Expr) : Parse Expr := do
  let first ← operands inner 6
  return first.joinRight (← many (operatorAndOperand 1 (operands inner 6)))

/-- An expression with at most one level of parentheses and brackets for each of the rounds. -/
def expressionFor : List Item → Parse Expr
  | [] => fail .missingExpression
  | _ :: rounds => assignment (expressionFor rounds)

def expression : Parse Expr := do expressionFor (← get).remaining

end Grammar

end LoopNest
