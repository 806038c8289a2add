import LoopNest.Variable

/-!
# Scopes

Scopes form a tree: each but the global one lies in another. `Scopes` holds the tree and the
scope that is open. A name is looked for in the open scope, then in the scope around it, and
so on. A name that is found nowhere is an implicit variable, bound in the scope directly
below the global one, which is that of the function around it.

* `Scopes.enclosing`: the open scope and those around it, the view that `lookup` goes by.
* `Scopes.resolve`: the variable of a name, made up if need be.
-/

namespace LoopNest

/-- The names that a scope binds, and the scope around it. -/
structure Scope where
  outer : Option Nat
  bindings : List (String × VarRef)
deriving Repr, Inhabited

namespace Scope

def find? (s : Scope) (name : String) : Option VarRef := s.bindings.lookup name

/-- Binds a name anew. -/
def bind (s : Scope) (name : String) (v : VarRef) : Scope :=
  { s with bindings := (name, v) :: s.bindings }

end Scope

/-- A tree of scopes, in the order in which they were opened, and the open one. -/
structure Scopes where
  tree : Array Scope
  current : Nat
deriving Repr, Inhabited

namespace Scopes

/-- The global scope alone. -/
def global : Scopes := ⟨#[⟨none, []⟩], 0⟩

/-- Opens a scope inside the open one. -/
def push (s : Scopes) : Scopes := ⟨s.tree.push ⟨some s.current, []⟩, s.tree.size⟩

def outer? (s : Scopes) (i : Nat) : Option Nat := s.tree[i]?.bind Scope.outer

/-- Closes the open scope. The global one stays open. -/
def pop (s : Scopes) : Scopes := { s with current := (s.outer? s.current).getD s.current }

/-- The scope `i` and those around it, as far as `fuel` goes. A scope is younger than the one
around it, so `i` steps reach the global scope. -/
def chainFrom (s : Scopes) : Nat → Nat → List Nat
  | 0, i => [i]
  | fuel + 1, i =>
    match s.outer? i with
    | some o => i :: chainFrom s fuel o
    | none => [i]

/-- The open scope and those around it, the global one last. -/
def enclosing (s : Scopes) : List Nat := s.chainFrom s.current s.current

def bind (s : Scopes) (i : Nat) (name : String) (v : VarRef) : Scopes :=
  { s with tree := s.tree.modify i fun scope => scope.bind name v }

def find? (s : Scopes) (name : String) (i : Nat) : Option VarRef :=
  s.tree[i]?.bind fun scope => scope.find? name

/-- The variable that a name stands for in the open scope. -/
def lookup (s : Scopes) (name : String) : Option VarRef := s.enclosing.findSome? (s.find? name)

/-- The last scope before the global one, on the way out. -/
def belowGlobal : List Nat → Nat
  | [] => 0
  | [i] => i
  | [i, _] => i
  | _ :: j :: k :: rest => belowGlobal (j :: k :: rest)

/-- The scope in which implicit variables are bound: the one directly below the global scope,
or the global one if no other is open. -/
def functionScope (s : Scopes) : Nat := belowGlobal s.enclosing

/-- Declares a variable in the open scope. A second declaration in one scope hides the first;
the flag tells of it. -/
def declare (s : Scopes) (table : VarTable) (name : String) (type : VarType) (span : Span) :
    (VarRef × Bool) × VarTable × Scopes :=
  let (v, table) := table.declare name type span
  ((v, (s.find? name s.current).isSome), table, s.bind s.current name v)

/-- The variable that a name stands for, an implicit one if no declaration is visible. -/
def resolve (s : Scopes) (table : VarTable) (name : String) (span : Span) :
    VarRef × VarTable × Scopes :=
  match s.lookup name with
  | some v => (v, table, s)
  | none =>
    let (v, table) := table.declareImplicit name span
    (v, table, s.bind s.functionScope name v)

end Scopes

end LoopNest
