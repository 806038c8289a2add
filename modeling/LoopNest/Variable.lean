import LoopNest.Source.Span
import LoopNest.VarType

/-!
# Variables

Every variable of a program has an entry in one table, and a number, which is its place
there. A name may belong to several variables; a reference goes by the number.
-/

namespace LoopNest

/-- A reference to the variable of that number, as it is written. -/
structure VarRef where
  id : Nat
  name : String
deriving DecidableEq, Repr, Inhabited

/-- Whether two references are to one variable, whatever their spelling. -/
def VarRef.sameVar (v w : VarRef) : Bool := v.id == w.id

/-- A variable of a program. A variable is implicit if its name was used without a visible
declaration; it then stands for something outside the program. -/
structure Variable where
  name : String
  type : VarType
  span : Span
  implicit : Bool
deriving DecidableEq, Repr

/-- The variables of a program, each at the place of its number. -/
structure VarTable where
  entries : Array Variable := #[]
deriving Repr, Inhabited

namespace VarTable

def size (t : VarTable) : Nat := t.entries.size

def isEmpty (t : VarTable) : Bool := t.entries.isEmpty

def get? (t : VarTable) (id : Nat) : Option Variable := t.entries[id]?

def type? (t : VarTable) (id : Nat) : Option VarType := (t.get? id).map Variable.type

/-- Adds a variable, whose number is the number of variables before it. -/
def add (t : VarTable) (v : Variable) : VarRef × VarTable :=
  (⟨t.size, v.name⟩, ⟨t.entries.push v⟩)

def declare (t : VarTable) (name : String) (type : VarType) (span : Span) : VarRef × VarTable :=
  t.add ⟨name, type, span, false⟩

/-- Adds a variable that nothing declares, an `int`. -/
def declareImplicit (t : VarTable) (name : String) (span : Span) : VarRef × VarTable :=
  t.add ⟨name, .int, span, true⟩

@[simp] theorem size_add (t : VarTable) (v : Variable) : (t.add v).2.size = t.size + 1 := by
  simp [add, size]

theorem get?_add_of_lt {t : VarTable} {id : Nat} (v : Variable) (h : id < t.size) :
    (t.add v).2.get? id = t.get? id := by
  have h' : id < t.entries.size := h
  simp [add, get?, Array.getElem?_push, Nat.ne_of_lt h']

theorem get?_add_self (t : VarTable) (v : Variable) : (t.add v).2.get? t.size = some v := by
  simp [add, get?, size]

end VarTable

end LoopNest
