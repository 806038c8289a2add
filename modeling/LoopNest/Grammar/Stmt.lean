import LoopNest.Grammar.Expr
import LoopNest.Stmt

/-!
# The grammar of statements

Attributes, types, declarations, statements and functions. A statement that cannot be read is
a problem, and reading goes on behind it, so that one reading finds many problems.

* `Grammar.statement`: a statement with the attributes in front of it.
* `Grammar.recoverStatement`, `Grammar.recoverFunction`: where reading goes on.
* `Program.read`: the program that a source text is.
-/

namespace LoopNest

namespace Grammar

open Parse

/-- The place from `start` to the end of the token that was read last. -/
def spanFrom (start : Span) : Parse Span := do return start.merge (← get).previous.span

def currentSpan : Parse Span := do return (← get).current.span

/-! ## Attributes -/

def attributeArguments : Parse (List Expr) := do
  if ← accept .leftParen then
    let args ← arguments expression
    expect .rightParen .attributeArguments
    pure args
  else pure []

def oneAttribute : Parse (Option Attribute) := do
  let start ← currentSpan
  if ← accept .atSign then
    let name ← name .attributeName
    let args ← attributeArguments
    return some ⟨name, args, ← spanFrom start⟩
  else pure none

def attributes : Parse (List Attribute) := many oneAttribute

/-! ## Types and declarations -/

/-- The number of stars. -/
def stars : Parse Nat := do
  let found ← many do
    if ← accept .star then return some () else pure none
  return found.length

/-- The rest of a type that starts with `long`: `long long` and `long int` are `long`. -/
def longRest : Parse Unit := do
  let _ ← many do
    if ← acceptKind (.keyword (.type .long)) then return some ()
    else if ← acceptKind (.keyword (.type .int)) then return some ()
    else pure none

/-- A type with its stars. -/
def typeName : Parse VarType := do
  match (← get).current.kind.baseType? with
  | some base =>
    advance
    if base = .long then longRest
    return ⟨base, ← stars⟩
  | none => fail .missingType

/-- The number of brackets behind a parameter, with or without a size. -/
def parameterBrackets : Parse Nat := do
  let found ← many do
    if ← accept .leftBracket then
      if !(← get).seesSymbol .rightBracket then
        let _ ← expression
      expect .rightBracket
      return some ()
    else pure none
  return found.length

/-- The name of a parameter with the stars in front of it and the brackets behind it. -/
def parameter (type : VarType) : Parse VarRef := do
  let depth ← stars
  let span ← currentSpan
  let name ← name .parameterName
  declare name (type.pointTo (depth + (← parameterBrackets))) span

/-- Parameters up to a closing parenthesis, which is left. A lone `void` stands for none. -/
def parameters : Parse (List VarRef) := do
  let r ← get
  if r.seesSymbol .rightParen then return []
  let type ← typeName
  if r.seesKeyword (.type .void) && (← get).seesSymbol .rightParen then return []
  let first ← parameter type
  let rest ← many do
    if ← accept .comma then return some (← parameter (← typeName)) else pure none
  return first :: rest

/-- The number of brackets behind a declarator. -/
def arrayBrackets : Parse Nat := do
  let found ← many do
    if ← accept .leftBracket then
      let _ ← expression
      expect .rightBracket .arraySize
      return some ()
    else pure none
  return found.length

def initializer : Parse (Option Expr) := do
  if ← accept .equal then return some (← expression) else pure none

/-- A declarator. Its variable is visible behind it, not in its own initial value. -/
def declarator (type : VarType) : Parse Declarator := do
  let start ← currentSpan
  let depth ← stars
  let nameSpan ← currentSpan
  let name ← name .variableName
  let type := type.pointTo (depth + (← arrayBrackets))
  let value ← initializer
  let v ← declare name type nameSpan
  return ⟨v, value, ← spanFrom start⟩

/-- A type, the declarators and a semicolon. -/
def declaration : Parse (List Declarator) := do
  let type ← typeName
  let ds ← commaSeparated (declarator type)
  expect .semicolon .declaration
  pure ds

/-! ## Where reading goes on -/

def startsStatement : Token.Kind → Bool
  | .keyword .forLoop | .keyword .ifThen | .keyword .whileLoop | .keyword .returnValue => true
  | _ => false

def endsStatement (r : Reader) : Bool :=
  r.seesSymbol .rightBrace || r.previous.kind == .symbol .semicolon ||
    startsStatement r.current.kind

/-- The place at which reading goes on when a statement that starts at `start` could not be
read: a closing brace, the token behind a semicolon, or a keyword that starts a statement. A
statement that failed at its first token loses that token. -/
def recoverStatement (start : Span) (r : Reader) : Reader :=
  let r := if r.current.span == start && !r.atEnd && !r.seesSymbol .rightBrace then r.skip else r
  r.skipUntil endsStatement

def startsFunction (r : Reader) : Bool :=
  r.previous.kind == .symbol .rightBrace && (r.seesSymbol .atSign || r.current.kind.isType)

/-- The place at which reading goes on when a function could not be read: what looks like the
start of a function behind a closing brace. -/
def recoverFunction (r : Reader) : Reader :=
  let r := if r.atEnd then r else r.skip
  r.skipUntil startsFunction

/-! ## Statements -/

/-- The next statement of a block, if there is one; nothing is made of one that cannot be
read. -/
def blockItem (statement : Parse Stmt) : Parse (Option (Option Stmt)) := do
  let r ← get
  if r.seesSymbol .rightBrace || r.atEnd then pure none
  else return some (← recovering statement (recoverStatement r.current.span))

/-- Statements between braces, in a scope of their own. -/
def block (statement : Parse Stmt) : Parse Block := do
  let start ← currentSpan
  expect .leftBrace
  let items ← inScope (many (blockItem statement))
  expect .rightBrace
  return ⟨items.filterMap id, ← spanFrom start⟩

/-- The first clause of a `for` header, with its semicolon. -/
def initClause : Parse Stmt := do
  let start ← currentSpan
  if ← accept .semicolon then return .empty ⟨start, []⟩
  if (← get).current.kind.isType then
    let ds ← declaration
    return .declaration ⟨← spanFrom start, []⟩ ds
  let x ← expression
  expect .semicolon .forInit
  return .expression ⟨x.span, []⟩ x

/-- A later clause of a `for` header. In front of one of the symbols the clause is left out,
and then it has the place of that symbol. -/
def clause (stops : List Symbol) : Parse Stmt := do
  let r ← get
  if stops.any r.seesSymbol then return .empty ⟨r.current.span, []⟩
  let x ← expression
  return .expression ⟨x.span, []⟩ x

/-- The attributes in a `for` header, behind a semicolon of their own. -/
def headerAttributes : Parse (List Attribute) := do
  if ← accept .semicolon then attributes else pure []

/-- What follows the opening parenthesis of a `for` statement. -/
def forRest (statement : Parse Stmt) : Parse (List Attribute × Loop) := do
  let init ← initClause
  let check ← clause [.semicolon]
  expect .semicolon .forCondition
  let update ← clause [.rightParen, .semicolon]
  let marks ← headerAttributes
  expect .rightParen .forHeader
  return (marks, ⟨init, check, update, ← statement⟩)

/-- A `for` statement, whose header opens a scope: the iterator is visible in the loop alone.
Attributes in the header follow those in front of the statement. -/
def forStatement (statement : Parse Stmt) (marks : List Attribute) : Parse Stmt := do
  let start ← currentSpan
  advance
  expect .leftParen .forKeyword
  let (more, loop) ← inScope (forRest statement)
  return .forLoop ⟨← spanFrom start, marks ++ more⟩ loop.init loop.check loop.update loop.body

/-- A condition in parentheses behind the keyword of a statement. -/
def condition (place : Place) : Parse Expr := do
  advance
  expect .leftParen place
  let x ← expression
  expect .rightParen .condition
  pure x

/-- An expression up to a semicolon, which is left. -/
def optionalValue : Parse (Option Expr) := do
  if (← get).seesSymbol .semicolon then pure none else return some (← expression)

/-- A statement whose attributes are read already, with `statement` for those inside it. -/
def statementRest (statement : Parse Stmt) (marks : List Attribute) : Parse Stmt := do
  let start ← currentSpan
  let head : Parse StmtHead := do return ⟨← spanFrom start, marks⟩
  match (← get).current.kind with
  | .keyword .forLoop => forStatement statement marks
  | .symbol .leftBrace =>
    let b ← block statement
    return .block (← head) b.statements
  | .keyword .ifThen =>
    let c ← condition .ifKeyword
    let thenBranch ← statement
    if ← acceptKind (.keyword .elseBranch) then
      let elseBranch ← statement
      return .ifElse (← head) c thenBranch elseBranch
    else return .ifThen (← head) c thenBranch
  | .keyword .whileLoop =>
    let c ← condition .whileKeyword
    let body ← statement
    return .whileLoop (← head) c body
  | .keyword .returnValue =>
    advance
    let value ← optionalValue
    expect .semicolon .returnValue
    return .returns (← head) value
  | .symbol .semicolon =>
    advance
    return .empty (← head)
  | .keyword (.type _) =>
    let ds ← declaration
    return .declaration (← head) ds
  | _ =>
    let x ← expression
    expect .semicolon .expression
    return .expression (← head) x

/-- A statement with at most one level of statements inside it for each of the rounds. -/
def statementFor : List Item → Parse Stmt
  | [] => fail .missingExpression
  | _ :: rounds => do statementRest (statementFor rounds) (← attributes)

def statement : Parse Stmt := do statementFor (← get).remaining

/-! ## Functions -/

/-- What follows the name of a function. -/
def functionRest : Parse (List VarRef × Block) := do
  expect .leftParen .functionName
  let params ← parameters
  expect .rightParen .parameters
  return (params, ← block statement)

/-- A function. Its parameters and its body lie in a scope of their own. -/
def function : Parse Function := do
  let marks ← attributes
  let start ← currentSpan
  let type ← typeName
  let name ← name .functionName
  let (params, body) ← inScope functionRest
  return ⟨name, type, params, body, marks, ← spanFrom start⟩

/-- The next function of a program, if there is one; nothing is made of one that cannot be
read. -/
def programItem : Parse (Option (Option Function)) := do
  if (← get).atEnd then pure none else return some (← recovering function recoverFunction)

def functions : Parse (List Function) := do return (← many programItem).filterMap id

end Grammar

/-! ## Programs -/

/-- The reader at the first token of a source text. -/
def Reader.ofSource (source : String) : Except Fault Reader :=
  match scan source with
  | .token t :: items => .ok { items, current := t, previous := t }
  | .fault f :: _ => .error f
  | [] =>
    let t : Token := ⟨.endOfFile, ⟨.start, .start⟩, ""⟩
    .ok { items := [], current := t, previous := t }

/-- The program that a source text is, or all problems in it. -/
def Program.read (source : String) : Except ReadError Program :=
  match Reader.ofSource source with
  | .error f => .error (.fault f)
  | .ok r =>
    match Grammar.functions r with
    | (.error failure, r') => .error (.problems (r'.problems ++ [failure.problemAt r']))
    | (.ok functions, r') =>
      if r'.problems.isEmpty then
        .ok ⟨functions, r'.vars, r.current.span.merge r'.previous.span⟩
      else .error (.problems r'.problems)

end LoopNest
