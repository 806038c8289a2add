import LoopNest.Binary64
import LoopNest.Variable

/-!
# Expressions

Operators, literals and expression trees. Every node carries its span. Parentheses are nodes
of their own, so that a tree tells how it was written.

* `BinaryOp.precedence`: how tightly an operator binds.
* `Expr.enclosed`, `Expr.withoutParentheses`: adding parentheses and removing them all.
* `Expr.startNode`: the leftmost node, at which an expression starts.
-/

namespace LoopNest

/-! ## Operators -/

/-- An operator with one operand, before or behind it. -/
inductive UnaryOp where
  | increment | decrement | negate | not
deriving DecidableEq, Repr, Inhabited

namespace UnaryOp

def all : List UnaryOp := [increment, decrement, negate, not]

def text : UnaryOp → String
  | increment => "++"
  | decrement => "--"
  | negate => "-"
  | not => "!"

end UnaryOp

inductive BinaryOp where
  | add | sub | mul | div | mod
  | lt | le | gt | ge | eq | ne
  | and | or
  | assign | addAssign | subAssign | mulAssign | divAssign
deriving DecidableEq, Repr, Inhabited

namespace BinaryOp

def all : List BinaryOp :=
  [add, sub, mul, div, mod, lt, le, gt, ge, eq, ne, and, or,
    assign, addAssign, subAssign, mulAssign, divAssign]

def text : BinaryOp → String
  | add => "+"
  | sub => "-"
  | mul => "*"
  | div => "/"
  | mod => "%"
  | lt => "<"
  | le => "<="
  | gt => ">"
  | ge => ">="
  | eq => "=="
  | ne => "!="
  | and => "&&"
  | or => "||"
  | assign => "="
  | addAssign => "+="
  | subAssign => "-="
  | mulAssign => "*="
  | divAssign => "/="

/-- The greater number binds tighter. -/
def precedence : BinaryOp → Nat
  | assign | addAssign | subAssign | mulAssign | divAssign => 1
  | or => 2
  | and => 3
  | eq | ne => 4
  | lt | le | gt | ge => 5
  | add | sub => 6
  | mul | div | mod => 7

/-- Assignments associate to the right, all other operators to the left. -/
def isAssignment (op : BinaryOp) : Bool := op.precedence == 1

end BinaryOp

/-! ## Literals -/

inductive Literal where
  | int (value : Int)
  | float (value : Binary64)
  | bool (value : Bool)
deriving DecidableEq, Repr, Inhabited

/-- Equality of values. Floating-point numbers are compared as numbers. -/
def Literal.sameValue : Literal → Literal → Bool
  | .int m, .int n => m == n
  | .float x, .float y => x.same y
  | .bool a, .bool b => a == b
  | _, _ => false

/-! ## Expression trees -/

inductive Expr where
  | var (span : Span) (v : VarRef)
  | literal (span : Span) (value : Literal)
  | unaryBefore (span : Span) (op : UnaryOp) (operand : Expr)
  | unaryBehind (span : Span) (op : UnaryOp) (operand : Expr)
  | binary (span : Span) (op : BinaryOp) (left right : Expr)
  | parentheses (span : Span) (inner : Expr)
  | subscript (span : Span) (array index : Expr)
  | call (span : Span) (function : String) (args : List Expr)
deriving Repr, Inhabited

namespace Expr

def span : Expr → Span
  | var s _ | literal s _ | unaryBefore s _ _ | unaryBehind s _ _ | binary s _ _ _
  | parentheses s _ | subscript s _ _ | call s _ _ => s

/-- The same node at another place. -/
def atSpan (s : Span) : Expr → Expr
  | var _ v => var s v
  | literal _ value => literal s value
  | unaryBefore _ op x => unaryBefore s op x
  | unaryBehind _ op x => unaryBehind s op x
  | binary _ op l r => binary s op l r
  | parentheses _ x => parentheses s x
  | subscript _ a i => subscript s a i
  | call _ f args => call s f args

def var? : Expr → Option VarRef
  | var _ v => some v
  | _ => none

/-- The expression as a unit, for use inside another one. It gets parentheses unless it has
them. -/
def enclosed : Expr → Expr
  | parentheses s x => parentheses s x
  | x => parentheses x.span x

/-- The leftmost node: an expression starts there. An operator in front of its operand starts
at its own token. -/
def startNode : Expr → Expr
  | unaryBehind _ _ x => x.startNode
  | binary _ _ l _ => l.startNode
  | subscript _ a _ => a.startNode
  | x => x

mutual

/-- The expression without any parentheses in it. -/
def withoutParentheses : Expr → Expr
  | parentheses _ x => x.withoutParentheses
  | var s v => var s v
  | literal s value => literal s value
  | unaryBefore s op x => unaryBefore s op x.withoutParentheses
  | unaryBehind s op x => unaryBehind s op x.withoutParentheses
  | binary s op l r => binary s op l.withoutParentheses r.withoutParentheses
  | subscript s a i => subscript s a.withoutParentheses i.withoutParentheses
  | call s f args => call s f (withoutParenthesesAll args)

def withoutParenthesesAll : List Expr → List Expr
  | [] => []
  | x :: xs => x.withoutParentheses :: withoutParenthesesAll xs

end

mutual

/-- The nodes of an expression, each before those below it and from left to right. -/
def nodes : Expr → List Expr
  | var s v => [var s v]
  | literal s value => [literal s value]
  | unaryBefore s op x => unaryBefore s op x :: x.nodes
  | unaryBehind s op x => unaryBehind s op x :: x.nodes
  | binary s op l r => binary s op l r :: (l.nodes ++ r.nodes)
  | parentheses s x => parentheses s x :: x.nodes
  | subscript s a i => subscript s a i :: (a.nodes ++ i.nodes)
  | call s f args => call s f args :: nodesAll args

def nodesAll : List Expr → List Expr
  | [] => []
  | x :: xs => x.nodes ++ nodesAll xs

end

/-! ## Comparing expressions -/

mutual

/-- Equality of trees, whatever their places. Variables are compared by their numbers. -/
def sameShape : Expr → Expr → Bool
  | var _ v, var _ w => v.sameVar w
  | literal _ a, literal _ b => a.sameValue b
  | unaryBefore _ o x, unaryBefore _ p y => o == p && x.sameShape y
  | unaryBehind _ o x, unaryBehind _ p y => o == p && x.sameShape y
  | binary _ o l r, binary _ p l' r' => o == p && l.sameShape l' && r.sameShape r'
  | parentheses _ x, parentheses _ y => x.sameShape y
  | subscript _ a i, subscript _ b j => a.sameShape b && i.sameShape j
  | call _ f xs, call _ g ys => f == g && sameShapes xs ys
  | _, _ => false

def sameShapes : List Expr → List Expr → Bool
  | [], [] => true
  | x :: xs, y :: ys => x.sameShape y && sameShapes xs ys
  | _, _ => false

end

/-- Equality of trees and of the places of all their nodes. -/
def same (x y : Expr) : Bool := x.sameShape y && x.nodes.map span == y.nodes.map span

end Expr

end LoopNest
