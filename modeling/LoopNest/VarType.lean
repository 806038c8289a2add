/-!
# Types of variables

A variable has a base type and a number of pointer levels. Brackets of an array declarator
count as pointer levels too.
-/

namespace LoopNest

/-- A type named by a keyword. -/
inductive BaseType where
  | void | char | short | int | long | float | double | bool
deriving DecidableEq, Repr, Inhabited

namespace BaseType

def all : List BaseType := [void, char, short, int, long, float, double, bool]

def text : BaseType → String
  | void => "void"
  | char => "char"
  | short => "short"
  | int => "int"
  | long => "long"
  | float => "float"
  | double => "double"
  | bool => "bool"

end BaseType

/-- A base type behind any number of pointers. -/
structure VarType where
  base : BaseType
  pointers : Nat := 0
deriving DecidableEq, Repr, Inhabited

namespace VarType

def int : VarType := ⟨.int, 0⟩

/-- The type of the variables that point to a `t`, `n` times over. -/
def pointTo (t : VarType) (n : Nat) : VarType := ⟨t.base, t.pointers + n⟩

/-- The types that an iterator may have. -/
def isIteratorType (t : VarType) : Bool :=
  t.pointers == 0 && (t.base == .char || t.base == .short || t.base == .int)

/-- The stars in front of the name of a variable of this type. -/
def stars (t : VarType) : String := String.ofList (List.replicate t.pointers '*')

/-- The base type, and a star behind a space for each pointer. -/
def text (t : VarType) : String := t.base.text ++ String.join (List.replicate t.pointers " *")

end VarType

end LoopNest
