import LoopNest.Expr

/-!
# Occurrences of a variable

Where a variable stands in an expression. Variables are told apart by their numbers, so that
two variables of one name never stand for each other.

* `Expr.side`: the side of an operator on which the variable stands.
* `Expr.mentions`: whether the variable occurs at all.
-/

namespace LoopNest

/-- Where a variable stands between the operands of an operator, with the other operand. -/
inductive Side where
  | left (other : Expr)
  | right (other : Expr)
  | neither
deriving Repr

namespace Side

/-- Below zero on the left, above it on the right. -/
def order : Side → Int
  | left _ => -1
  | right _ => 1
  | neither => 0

def other? : Side → Option Expr
  | left x | right x => some x
  | neither => none

def isMatch (s : Side) : Bool := s.other?.isSome

end Side

namespace Expr

/-- Whether an expression is the variable itself. -/
def isVar (id : Nat) : Expr → Bool
  | var _ v => v.id == id
  | _ => false

/-- Whether an expression is an operator right before or behind the variable. -/
def isUnaryOn (id : Nat) : Expr → Bool
  | unaryBefore _ _ x | unaryBehind _ _ x => x.isVar id
  | _ => false

/-- Where the variable stands between two operands. The left one wins if it is both. -/
def sideOf (id : Nat) (left right : Expr) : Side :=
  if left.isVar id then .left right else if right.isVar id then .right left else .neither

/-- Where the variable stands around the topmost operator. -/
def side (id : Nat) : Expr → Side
  | binary _ _ l r => sideOf id l r
  | _ => .neither

mutual

/-- Whether the variable occurs anywhere in an expression. -/
def mentions (id : Nat) : Expr → Bool
  | var _ v => v.id == id
  | literal _ _ => false
  | unaryBefore _ _ x | unaryBehind _ _ x | parentheses _ x => x.mentions id
  | binary _ _ l r => l.mentions id || r.mentions id
  | subscript _ a i => a.mentions id || i.mentions id
  | call _ _ args => mentionedBy id args

def mentionedBy (id : Nat) : List Expr → Bool
  | [] => false
  | x :: xs => x.mentions id || mentionedBy id xs

end

end Expr

end LoopNest
