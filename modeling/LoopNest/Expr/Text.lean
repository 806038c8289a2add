import LoopNest.Binary64.Shortest
import LoopNest.Expr

/-!
# The text of expressions

An expression is written on one line, with a space on both sides of every operator between
two operands. An operand gets parentheses where its tree has none and would be read
differently.
-/

namespace LoopNest

def Literal.text : Literal → String
  | .int value => toString value
  | .float value => value.text
  | .bool value => toString value

namespace Expr

/-- How tightly the topmost node of an expression binds. -/
def binding : Expr → Nat
  | binary _ op _ _ => op.precedence
  | unaryBefore _ _ _ => 8
  | _ => 9

/-- The least binding of a left operand that needs no parentheses. -/
def leftLevel (op : BinaryOp) : Nat :=
  if op.isAssignment then op.precedence + 1 else op.precedence

/-- The least binding of a right operand that needs no parentheses. -/
def rightLevel (op : BinaryOp) : Nat :=
  if op.isAssignment then op.precedence else op.precedence + 1

/-- A text in parentheses if it binds less than the level asks for. -/
def operandText (level binding : Nat) (text : String) : String :=
  if binding < level then "(" ++ text ++ ")" else text

mutual

def text : Expr → String
  | var _ v => v.name
  | literal _ value => value.text
  | unaryBefore _ op x => op.text ++ operandText 8 x.binding x.text
  | unaryBehind _ op x => operandText 9 x.binding x.text ++ op.text
  | binary _ op l r =>
    operandText (leftLevel op) l.binding l.text ++ " " ++ op.text ++ " " ++
      operandText (rightLevel op) r.binding r.text
  | parentheses _ x => "(" ++ x.text ++ ")"
  | subscript _ a i => operandText 9 a.binding a.text ++ "[" ++ i.text ++ "]"
  | call _ f args => f ++ "(" ++ ", ".intercalate (texts args) ++ ")"

def texts : List Expr → List String
  | [] => []
  | x :: xs => x.text :: texts xs

end

end Expr

end LoopNest
