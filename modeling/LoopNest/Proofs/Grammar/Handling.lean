import LoopNest.Proofs.Grammar.Yields

/-!
# The grammar with errors handled in other ways

Two readers of the grammar do something about errors: one that declares a variable a second time,
and one behind which reading goes on where something could not be read. With these two as
parameters, the readers that are made of them are the same grammar for another handling of errors.

* `Grammar.Handling`: the two readers.
* `Grammar.Handling.tolerant`: they note a problem and go on. This is the grammar
  (`Grammar.Handling.functions_tolerant`).
* `Grammar.Handling.strict`: they fail, so that reading ends at the first error.
-/

namespace LoopNest

namespace Grammar

open Parse

/-- What is done about a second declaration of a variable, and about something that cannot be
read. -/
structure Handling where
  declare : String → VarType → Span → Parse VarRef
  recovering : {α : Type} → Parse α → (Reader → Reader) → Parse (Option α)

namespace Handling

/-- Errors are noted, and reading goes on. -/
def tolerant : Handling := ⟨Parse.declare, Parse.recovering⟩

/-- A declaration that fails if the open scope has the name already. -/
def declareOnce (name : String) (type : VarType) (span : Span) : Parse VarRef := do
  let r ← get
  let ((v, again), vars, scopes) := r.scopes.declare r.vars name type span
  if again then throw (.problem ⟨.redefinition name, span, none⟩)
  set { r with vars, scopes }
  pure v

theorem declareOnce_apply (name : String) (type : VarType) (span : Span) (r : Reader) :
    declareOnce name type span r =
      if (r.scopes.declare r.vars name type span).1.2 then
        (.error (.problem ⟨.redefinition name, span, none⟩), r)
      else
        (.ok (r.scopes.declare r.vars name type span).1.1,
          { r with
            vars := (r.scopes.declare r.vars name type span).2.1
            scopes := (r.scopes.declare r.vars name type span).2.2 }) := by
  have hget : (get : Parse Reader) r = (.ok r, r) := rfl
  unfold declareOnce
  rw [bind_apply, hget]
  dsimp only
  split <;> rfl

/-- Reading ends at the first error. -/
def strict : Handling := ⟨declareOnce, fun step _ => do return some (← step)⟩

variable (h : Handling)

/-! ## Declarations -/

def parameter (type : VarType) : Parse VarRef := do
  let depth ← stars
  let span ← currentSpan
  let name ← name .parameterName
  h.declare name (type.pointTo (depth + (← parameterBrackets))) span

/-- A further parameter. -/
def parameterItem : Parse (Option VarRef) := do
  if ← accept .comma then return some (← h.parameter (← typeName)) else pure none

def parameters : Parse (List VarRef) := do
  let r ← get
  if r.seesSymbol .rightParen then return []
  let type ← typeName
  if r.seesKeyword (.type .void) && (← get).seesSymbol .rightParen then return []
  let first ← h.parameter type
  let rest ← many do
    if ← accept .comma then return some (← h.parameter (← typeName)) else pure none
  return first :: rest

def declarator (type : VarType) : Parse Declarator := do
  let start ← currentSpan
  let depth ← stars
  let nameSpan ← currentSpan
  let name ← name .variableName
  let type := type.pointTo (depth + (← arrayBrackets))
  let value ← initializer
  let v ← h.declare name type nameSpan
  return ⟨v, value, ← spanFrom start⟩

def declaration : Parse (List Declarator) := do
  let type ← typeName
  let ds ← commaSeparated (h.declarator type)
  expect .semicolon .declaration
  pure ds

/-! ## Statements -/

def blockItem (statement : Parse Stmt) : Parse (Option (Option Stmt)) := do
  let r ← get
  if r.seesSymbol .rightBrace || r.atEnd then pure none
  else return some (← h.recovering statement (recoverStatement r.current.span))

def block (statement : Parse Stmt) : Parse Block := do
  let start ← currentSpan
  expect .leftBrace
  let items ← inScope (many (h.blockItem statement))
  expect .rightBrace
  return ⟨items.filterMap id, ← spanFrom start⟩

def initClause : Parse Stmt := do
  let start ← currentSpan
  if ← accept .semicolon then return .empty ⟨start, []⟩
  if (← get).current.kind.isType then
    let ds ← h.declaration
    return .declaration ⟨← spanFrom start, []⟩ ds
  let x ← expression
  expect .semicolon .forInit
  return .expression ⟨x.span, []⟩ x

def forRest (statement : Parse Stmt) : Parse (List Attribute × Loop) := do
  let init ← h.initClause
  let check ← clause [.semicolon]
  expect .semicolon .forCondition
  let update ← clause [.rightParen, .semicolon]
  let marks ← headerAttributes
  expect .rightParen .forHeader
  return (marks, ⟨init, check, update, ← statement⟩)

def forStatement (statement : Parse Stmt) (marks : List Attribute) : Parse Stmt := do
  let start ← currentSpan
  advance
  expect .leftParen .forKeyword
  let (more, loop) ← inScope (h.forRest statement)
  return .forLoop ⟨← spanFrom start, marks ++ more⟩ loop.init loop.check loop.update loop.body

def statementRest (statement : Parse Stmt) (marks : List Attribute) : Parse Stmt := do
  let start ← currentSpan
  let head : Parse StmtHead := do return ⟨← spanFrom start, marks⟩
  match (← get).current.kind with
  | .keyword .forLoop => h.forStatement statement marks
  | .symbol .leftBrace =>
    let b ← h.block statement
    return .block (← head) b.statements
  | .keyword .ifThen =>
    let c ← condition .ifKeyword
    let thenBranch ← statement
    if ← acceptKind (.keyword .elseBranch) then
      let elseBranch ← statement
      return .ifElse (← head) c thenBranch elseBranch
    else return .ifThen (← head) c thenBranch
  | .keyword .whileLoop =>
    let c ← condition .whileKeyword
    let body ← statement
    return .whileLoop (← head) c body
  | .keyword .returnValue =>
    advance
    let value ← optionalValue
    expect .semicolon .returnValue
    return .returns (← head) value
  | .symbol .semicolon =>
    advance
    return .empty (← head)
  | .keyword (.type _) =>
    let ds ← h.declaration
    return .declaration (← head) ds
  | _ =>
    let x ← expression
    expect .semicolon .expression
    return .expression (← head) x

def statementFor : List Item → Parse Stmt
  | [] => fail .missingExpression
  | _ :: rounds => do h.statementRest (statementFor rounds) (← attributes)

def statement : Parse Stmt := do h.statementFor (← get).remaining

/-! ## Functions -/

def functionRest : Parse (List VarRef × Block) := do
  expect .leftParen .functionName
  let params ← h.parameters
  expect .rightParen .parameters
  return (params, ← h.block h.statement)

def function : Parse Function := do
  let marks ← attributes
  let start ← currentSpan
  let type ← typeName
  let name ← name .functionName
  let (params, body) ← inScope h.functionRest
  return ⟨name, type, params, body, marks, ← spanFrom start⟩

def programItem : Parse (Option (Option Function)) := do
  if (← get).atEnd then pure none else return some (← h.recovering h.function recoverFunction)

def functions : Parse (List Function) := do return (← many h.programItem).filterMap id

/-! ## The grammar itself -/

theorem declaration_tolerant : tolerant.declaration = Grammar.declaration := rfl

theorem block_tolerant (statement : Parse Stmt) :
    tolerant.block statement = Grammar.block statement := rfl

theorem forStatement_tolerant (statement : Parse Stmt) (marks : List Attribute) :
    tolerant.forStatement statement marks = Grammar.forStatement statement marks := rfl

theorem statementRest_tolerant (statement : Parse Stmt) (marks : List Attribute) :
    tolerant.statementRest statement marks = Grammar.statementRest statement marks := rfl

theorem statementFor_tolerant (rounds : List Item) :
    tolerant.statementFor rounds = Grammar.statementFor rounds := by
  induction rounds with
  | nil => rfl
  | cons _ rounds ih =>
    simp only [statementFor, Grammar.statementFor, ih, statementRest_tolerant]

theorem statement_tolerant : tolerant.statement = Grammar.statement := by
  simp only [statement, Grammar.statement, statementFor_tolerant]

theorem function_tolerant : tolerant.function = Grammar.function := by
  have hrest : tolerant.functionRest = Grammar.functionRest := by
    unfold functionRest Grammar.functionRest
    rw [statement_tolerant]
    rfl
  unfold function Grammar.function
  rw [hrest]

theorem programItem_tolerant : tolerant.programItem = Grammar.programItem := by
  unfold programItem Grammar.programItem
  rw [function_tolerant]
  rfl

theorem functions_tolerant : tolerant.functions = Grammar.functions := by
  unfold functions Grammar.functions
  rw [programItem_tolerant]

end Handling

end Grammar

end LoopNest
