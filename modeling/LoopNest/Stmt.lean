import LoopNest.Expr

/-!
# Statements and programs

Statement trees, functions and programs. Every statement has a span, which starts behind the
attributes in front of it, and the attributes that were written for it.

* `Level`: what an attribute may say of a loop.
* `Stmt.children`, `Stmt.statements`: the statements below a statement, directly and all.
* `Stmt.visits`: everything below a statement in the order of the source.
-/

namespace LoopNest

/-! ## Attributes -/

/-- A mark such as `@kernel`, `@outer` or `@inner(1)`. -/
structure Attribute where
  name : String
  args : List Expr
  span : Span
deriving Repr, Inhabited

/-- The parallel level to which a loop is mapped. -/
inductive Level where
  | outer | inner
deriving DecidableEq, Repr

namespace Level

def name : Level → String
  | outer => "outer"
  | inner => "inner"

def text (l : Level) : String := "@" ++ l.name

def ofName? (s : String) : Option Level :=
  if s = "outer" then some outer else if s = "inner" then some inner else none

end Level

namespace Attribute

/-- The attribute of the functions that are checked. -/
def isKernel (a : Attribute) : Bool := a.name == "kernel"

def level? (a : Attribute) : Option Level := Level.ofName? a.name

/-- The dimension that the attribute names: its first argument, if that is a whole number. -/
def dimension? (a : Attribute) : Option Int :=
  match a.args with
  | .literal _ (.int value) :: _ => some value
  | _ => none

end Attribute

/-! ## Statements -/

/-- One variable of a declaration. -/
structure Declarator where
  var : VarRef
  value : Option Expr
  span : Span
deriving Repr, Inhabited

/-- What all statements have. -/
structure StmtHead where
  span : Span
  attributes : List Attribute := []
deriving Repr, Inhabited

inductive Stmt where
  | declaration (head : StmtHead) (declarators : List Declarator)
  | expression (head : StmtHead) (value : Expr)
  | forLoop (head : StmtHead) (init check update body : Stmt)
  | block (head : StmtHead) (body : List Stmt)
  | ifThen (head : StmtHead) (condition : Expr) (thenBranch : Stmt)
  | ifElse (head : StmtHead) (condition : Expr) (thenBranch elseBranch : Stmt)
  | whileLoop (head : StmtHead) (condition : Expr) (body : Stmt)
  | returns (head : StmtHead) (value : Option Expr)
  | empty (head : StmtHead)
deriving Repr, Inhabited

/-- The four parts of a `for` statement. -/
structure Loop where
  init : Stmt
  check : Stmt
  update : Stmt
  body : Stmt
deriving Repr, Inhabited

namespace Stmt

def head : Stmt → StmtHead
  | declaration h _ | expression h _ | forLoop h _ _ _ _ | block h _ | ifThen h _ _
  | ifElse h _ _ _ | whileLoop h _ _ | returns h _ | empty h => h

def span (s : Stmt) : Span := s.head.span

def attributes (s : Stmt) : List Attribute := s.head.attributes

def loop? : Stmt → Option Loop
  | forLoop _ init check update body => some ⟨init, check, update, body⟩
  | _ => none

def isLoop (s : Stmt) : Bool := s.loop?.isSome

def declarators? : Stmt → Option (List Declarator)
  | declaration _ ds => some ds
  | _ => none

def isDeclaration (s : Stmt) : Bool := s.declarators?.isSome

def isEmpty : Stmt → Bool
  | empty _ => true
  | _ => false

/-- A block without attributes. -/
def isPlainBlock : Stmt → Bool
  | block h _ => h.attributes.isEmpty
  | _ => false

/-- The first attribute that names a level, with that level. -/
def level? (s : Stmt) : Option (Level × Attribute) :=
  s.attributes.findSome? fun a => a.level?.map fun l => (l, a)

/-- A `for` statement with a level. -/
def isMappedLoop (s : Stmt) : Bool := s.isLoop && s.level?.isSome

/-- A `for` statement with that level. -/
def isMappedTo (l : Level) (s : Stmt) : Bool := s.isLoop && s.level?.map Prod.fst == some l

/-! ## Statements below a statement -/

/-- The statements directly below a statement, in the order of the source. -/
def children : Stmt → List Stmt
  | forLoop _ init check update body => [init, check, update, body]
  | block _ body => body
  | ifThen _ _ t => [t]
  | ifElse _ _ t e => [t, e]
  | whileLoop _ _ body => [body]
  | declaration _ _ | expression _ _ | returns _ _ | empty _ => []

mutual

/-- A statement and all below it, each before those below it. -/
def statements : Stmt → List Stmt
  | forLoop h i c u b =>
    forLoop h i c u b :: (i.statements ++ (c.statements ++ (u.statements ++ b.statements)))
  | block h body => block h body :: statementsAll body
  | ifThen h c t => ifThen h c t :: t.statements
  | ifElse h c t e => ifElse h c t e :: (t.statements ++ e.statements)
  | whileLoop h c body => whileLoop h c body :: body.statements
  | declaration h ds => [declaration h ds]
  | expression h x => [expression h x]
  | returns h x => [returns h x]
  | empty h => [empty h]

def statementsAll : List Stmt → List Stmt
  | [] => []
  | s :: ss => s.statements ++ statementsAll ss

end

mutual

/-- The statements in a statement, seen through blocks without attributes. -/
def direct : Stmt → List Stmt
  | block h body => if h.attributes.isEmpty then directAll body else [block h body]
  | s => [s]

def directAll : List Stmt → List Stmt
  | [] => []
  | s :: ss => s.direct ++ directAll ss

end

end Stmt

/-! ## Visiting all of a statement -/

/-- What a reader of a statement comes by. -/
inductive Visit where
  | statement (s : Stmt)
  | block
  | expression (x : Expr)

namespace Visit

def statement? : Visit → Option Stmt
  | statement s => some s
  | _ => none

def expression? : Visit → Option Expr
  | expression x => some x
  | _ => none

def isBlock : Visit → Bool
  | block => true
  | _ => false

end Visit

/-- An expression and those below it. -/
def Expr.visits (x : Expr) : List Visit := x.nodes.map .expression

/-- The visits of a value that may be left out. -/
def Visit.ofValue : Option Expr → List Visit
  | some x => x.visits
  | none => []

mutual

/-- A statement and all statements, blocks and expressions below it, each before those below
it. Arguments of attributes and sizes of arrays are not part of a statement. -/
def Stmt.visits : Stmt → List Visit
  | .declaration h ds =>
    .statement (.declaration h ds) :: ds.flatMap fun d => Visit.ofValue d.value
  | .expression h x => .statement (.expression h x) :: x.visits
  | .forLoop h i c u b =>
    .statement (.forLoop h i c u b) :: (i.visits ++ (c.visits ++ (u.visits ++ b.visits)))
  | .block h body => .statement (.block h body) :: .block :: Stmt.visitsAll body
  | .ifThen h c t => .statement (.ifThen h c t) :: (c.visits ++ t.visits)
  | .ifElse h c t e => .statement (.ifElse h c t e) :: (c.visits ++ (t.visits ++ e.visits))
  | .whileLoop h c b => .statement (.whileLoop h c b) :: (c.visits ++ b.visits)
  | .returns h x => .statement (.returns h x) :: Visit.ofValue x
  | .empty h => [.statement (.empty h)]

def Stmt.visitsAll : List Stmt → List Visit
  | [] => []
  | s :: ss => s.visits ++ Stmt.visitsAll ss

end

/-! ## Programs -/

/-- Statements between braces. -/
structure Block where
  statements : List Stmt
  span : Span
deriving Repr, Inhabited

def Block.visits (b : Block) : List Visit := .block :: Stmt.visitsAll b.statements

/-- The statements of the block and all below them. -/
def Block.allStatements (b : Block) : List Stmt := Stmt.statementsAll b.statements

structure Function where
  name : String
  returnType : VarType
  params : List VarRef
  body : Block
  attributes : List Attribute
  span : Span
deriving Repr, Inhabited

def Function.isKernel (f : Function) : Bool := f.attributes.any Attribute.isKernel

/-- The functions of a source text in their order, and all variables in them. -/
structure Program where
  functions : List Function
  vars : VarTable
  span : Span
deriving Repr, Inhabited

def Program.kernels (p : Program) : List Function := p.functions.filter Function.isKernel

end LoopNest
