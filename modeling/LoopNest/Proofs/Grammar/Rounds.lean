import LoopNest.Grammar.Stmt

/-!
# The rounds of the loops

A loop of the grammar repeats a step until it yields nothing. The steps that the grammar does not
name are named here, so that what is shown of a round is said of it by name.

* `Parse.separated`, `Parse.itemUnless`: an item behind a comma, and one that is read unless there is
  none left.
* `Grammar.optional`, `Grammar.longItem`: the rounds in a type.
* `Grammar.parameterItem`, `Grammar.parameterBracket`, `Grammar.arrayBracket`: those in a list of
  parameters, behind a parameter and behind a declarator.
* `Grammar.blockItem_eq`, `Grammar.programItem_eq`: those of a block and of a program, in which what
  cannot be read is recovered from.
-/

namespace LoopNest

namespace Parse

/-- An item behind a comma, if there is one. -/
def separated {α : Type} (item : Parse α) : Parse (Option α) := do
  if ← accept .comma then return some (← item) else pure none

theorem commaSeparated_eq {α : Type} (item : Parse α) :
    commaSeparated item = do return (← item) :: (← many (separated item)) := rfl

/-- An item, unless the reader stands where there is none left. -/
def itemUnless {α : Type} (stop : Reader → Bool) (item : Reader → Parse α) : Parse (Option α) := do
  let r ← get
  if stop r then pure none else return some (← item r)

end Parse

namespace Grammar

open Parse

/-- A symbol that may be there. -/
def optional (s : Symbol) : Parse (Option Unit) := do
  if ← accept s then return some () else pure none

theorem stars_eq : stars = do return (← many (optional .star)).length := rfl

/-- A word that may follow `long` in a type. -/
def longItem : Parse (Option Unit) := do
  if ← acceptKind (.keyword (.type .long)) then return some ()
  else if ← acceptKind (.keyword (.type .int)) then return some ()
  else pure none

theorem longRest_eq : longRest = (do let _ ← many longItem) := rfl

/-- Brackets behind a parameter. -/
def parameterBracket : Parse (Option Unit) := do
  if ← accept .leftBracket then
    if !(← get).seesSymbol .rightBracket then
      let _ ← expression
    expect .rightBracket
    return some ()
  else pure none

theorem parameterBrackets_eq :
    parameterBrackets = do return (← many parameterBracket).length := rfl

/-- A further parameter. -/
def parameterItem : Parse (Option VarRef) := do
  if ← accept .comma then return some (← parameter (← typeName)) else pure none

theorem parameterItem_eq : parameterItem = separated (do parameter (← typeName)) := by
  simp only [parameterItem, separated, bind_assoc]

theorem parameters_eq : parameters = (do
    let r ← get
    if r.seesSymbol .rightParen then return []
    let type ← typeName
    if r.seesKeyword (.type .void) && (← get).seesSymbol .rightParen then return []
    return (← parameter type) :: (← many parameterItem)) := rfl

/-- A size behind a declarator. -/
def arrayBracket : Parse (Option Unit) := do
  if ← accept .leftBracket then
    let _ ← expression
    expect .rightBracket .arraySize
    return some ()
  else pure none

theorem arrayBrackets_eq : arrayBrackets = do return (← many arrayBracket).length := rfl

/-- At a closing brace and at the end there is no further statement. -/
def endsBlock (r : Reader) : Bool := r.seesSymbol .rightBrace || r.atEnd

theorem blockItem_eq (statement : Parse Stmt) : blockItem statement =
    itemUnless endsBlock fun r => recovering statement (recoverStatement r.current.span) := rfl

theorem programItem_eq :
    programItem = itemUnless Reader.atEnd fun _ => recovering function recoverFunction := rfl

end Grammar

end LoopNest
