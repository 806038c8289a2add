import LoopNest.Expr.Text
import LoopNest.Layout
import LoopNest.Stmt

/-!
# The text of statements and programs

Programs written back as source text. Attributes of a `for` statement are written in its
header, all others in front of what they belong to. A block without attributes shares the
line of the header that it follows.

* `Stmt.layout`: the layout of a statement.
* `Program.text`: the source text of a program.
-/

namespace LoopNest

def Attribute.text (a : Attribute) : String :=
  if a.args.isEmpty then "@" ++ a.name
  else "@" ++ a.name ++ "(" ++ ", ".intercalate (a.args.map Expr.text) ++ ")"

/-! ## Declarations -/

/-- The type of a variable. One that is not in the table counts as an `int`. -/
def VarTable.typeOf (vars : VarTable) (v : VarRef) : VarType := (vars.type? v.id).getD .int

/-- The name of a variable behind its stars. -/
def VarRef.starred (vars : VarTable) (v : VarRef) : String := (vars.typeOf v).stars ++ v.name

def VarRef.parameterText (vars : VarTable) (v : VarRef) : String :=
  (vars.typeOf v).base.text ++ " " ++ v.starred vars

def Declarator.text (vars : VarTable) (d : Declarator) : String :=
  match d.value with
  | some x => d.var.starred vars ++ " = " ++ x.text
  | none => d.var.starred vars

/-- The base type of the variables of a declaration, which is that of the first one. -/
def baseTypeOf (vars : VarTable) : List Declarator → BaseType
  | [] => .int
  | d :: _ => (vars.typeOf d.var).base

def declarationText (vars : VarTable) (ds : List Declarator) : String :=
  (baseTypeOf vars ds).text ++ " " ++ ", ".intercalate (ds.map (Declarator.text vars))

/-! ## Statements -/

namespace Stmt

/-- A declaration or an expression without its semicolon. -/
def clauseText (vars : VarTable) : Stmt → String
  | declaration _ ds => declarationText vars ds
  | expression _ x => x.text
  | _ => ""

/-- The attributes in a `for` header, behind the semicolon that introduces them. -/
def headerMarks (marks : List Attribute) : String :=
  if marks.isEmpty then "" else "; " ++ " ".intercalate (marks.map Attribute.text)

def headerText (vars : VarTable) (marks : List Attribute) (init check update : Stmt) : String :=
  "for (" ++ init.clauseText vars ++ "; " ++ check.clauseText vars ++ "; " ++
    update.clauseText vars ++ headerMarks marks ++ ")"

/-- Attributes in front of a statement or a function. -/
def marksBefore (marks : List Attribute) : List Layout.Step :=
  marks.map fun a => .write (a.text ++ " ")

/-- A header and the statement that it governs, whose layout is `inner`. -/
def governed (header : String) (body : Stmt) (inner : List Layout.Step) : List Layout.Step :=
  if body.isPlainBlock then .write (header ++ " ") :: inner
  else .line header :: .indent :: inner ++ [.dedent]

/-- Statements between braces, whose layout is `inner`. -/
def braced (inner : List Layout.Step) : List Layout.Step :=
  .line "\x7b" :: .indent :: inner ++ [.dedent, .line "\x7d"]

mutual

def layout (vars : VarTable) : Stmt → List Layout.Step
  | forLoop h init check update body =>
    governed (headerText vars h.attributes init check update) body (body.layout vars)
  | block h body => marksBefore h.attributes ++ braced (layoutAll vars body)
  | ifThen h c t =>
    marksBefore h.attributes ++ governed ("if (" ++ c.text ++ ")") t (t.layout vars)
  | ifElse h c t e =>
    marksBefore h.attributes ++ governed ("if (" ++ c.text ++ ")") t (t.layout vars) ++
      governed "else" e (e.layout vars)
  | whileLoop h c body =>
    marksBefore h.attributes ++ governed ("while (" ++ c.text ++ ")") body (body.layout vars)
  | returns h (some x) => marksBefore h.attributes ++ [.line ("return " ++ x.text ++ ";")]
  | returns h none => marksBefore h.attributes ++ [.line "return;"]
  | declaration h ds => marksBefore h.attributes ++ [.line (declarationText vars ds ++ ";")]
  | expression h x => marksBefore h.attributes ++ [.line (x.text ++ ";")]
  | empty h => marksBefore h.attributes ++ [.line ";"]

def layoutAll (vars : VarTable) : List Stmt → List Layout.Step
  | [] => []
  | s :: ss => s.layout vars ++ layoutAll vars ss

end

end Stmt

/-! ## Programs -/

def Function.headerText (vars : VarTable) (f : Function) : String :=
  f.returnType.text ++ " " ++ f.name ++
    "(" ++ ", ".intercalate (f.params.map (VarRef.parameterText vars)) ++ ")"

def Function.layout (vars : VarTable) (f : Function) : List Layout.Step :=
  Stmt.marksBefore f.attributes ++
    .write (f.headerText vars ++ " ") :: Stmt.braced (Stmt.layoutAll vars f.body.statements)

/-- Functions with an empty line between them. -/
def Program.layout (p : Program) : List Layout.Step :=
  List.intercalate [.line ""] (p.functions.map (Function.layout p.vars))

/-- The source text of a program. -/
def Program.text (p : Program) : String := Layout.render p.layout

end LoopNest
