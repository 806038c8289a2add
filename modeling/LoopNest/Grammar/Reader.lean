import LoopNest.Grammar.Problem
import LoopNest.Token.Scan
import LoopNest.Variable.Scope

/-!
# Reading tokens

A `Reader` stands at a token of a source text and holds what was read so far: the problems,
the variables and the scopes. A `Parse` is a step of reading that may fail; the reader that
it leaves behind is there in either case.

* `advance`: the step to the next token, which fails at a fault of the source text.
* `many`: the same step over and over, until it yields nothing.
* `inScope`: a step inside a scope of its own, which is closed whatever happens.
-/

namespace LoopNest

structure Reader where
  /-- The items behind the current token. -/
  items : List Item
  current : Token
  previous : Token
  problems : List Problem := []
  vars : VarTable := {}
  scopes : Scopes := .global
deriving Repr

namespace Reader

/-- Whether the current token is of that kind. -/
def sees (r : Reader) (k : Token.Kind) : Bool := r.current.kind == k

def seesSymbol (r : Reader) (s : Symbol) : Bool := r.sees (.symbol s)

def seesKeyword (r : Reader) (k : Keyword) : Bool := r.sees (.keyword k)

def atEnd (r : Reader) : Bool := r.current.isEnd

/-- The current token and the items behind it: a loop that takes one of them in every round
comes to its end in as many rounds. -/
def remaining (r : Reader) : List Item := .token r.current :: r.items

/-- The step to the next token. At a fault the reader stays at its token, and the fault is
behind it. At the end of the source the reader stays there. -/
def advance (r : Reader) : Except Fault Unit × Reader :=
  match r.items with
  | [] => (.ok (), { r with previous := r.current })
  | .token t :: items => (.ok (), { r with items, previous := r.current, current := t })
  | .fault f :: items => (.error f, { r with items })

/-- Gives up the rest of the source: the end of the file stands in place of the current
token. -/
def stopHere (r : Reader) : Reader :=
  { r with current := ⟨.endOfFile, r.current.span, ""⟩ }

/-- Passes over the current token. A fault behind it ends the source. -/
def skip (r : Reader) : Reader :=
  match r.advance with
  | (.ok _, r) => r
  | (.error _, r) => r.stopHere

/-- Passes over tokens up to one at which `stop` holds, at most one for each of the rounds. -/
def skipFor (stop : Reader → Bool) : List Item → Reader → Reader
  | [], r => r
  | _ :: rounds, r => if r.atEnd || stop r then r else skipFor stop rounds r.skip

/-- Passes over tokens up to one at which `stop` holds. -/
def skipUntil (stop : Reader → Bool) (r : Reader) : Reader := skipFor stop r.remaining r

def addProblem (r : Reader) (p : Problem) : Reader := { r with problems := r.problems ++ [p] }

/-- The problem that something is missing at the current token. -/
def problemHere (r : Reader) (cause : Problem.Cause) : Problem :=
  ⟨cause, r.current.span, some r.current.kind⟩

end Reader

/-! ## Steps that may fail -/

/-- Why a step failed. -/
inductive Failure where
  | problem (p : Problem)
  | fault (f : Fault)
deriving DecidableEq, Repr

/-- The problem to be reported for a failure when the reader stands at `r`. -/
def Failure.problemAt (r : Reader) : Failure → Problem
  | problem p => p
  | fault f => ⟨.unreadable f, r.current.span, none⟩

/-- A step of reading. A step that fails leaves a reader behind as well. -/
abbrev Parse := ExceptT Failure (StateM Reader)

namespace Parse

def fail {α : Type} (cause : Problem.Cause) : Parse α := do
  throw (.problem ((← get).problemHere cause))

def advance : Parse Unit := do
  let (result, r) := (← get).advance
  set r
  match result with
  | .ok _ => pure ()
  | .error f => throw (.fault f)

/-- Passes over a token of that kind if it is there, and tells whether it was. -/
def acceptKind (k : Token.Kind) : Parse Bool := do
  if (← get).sees k then
    advance
    pure true
  else pure false

def accept (s : Symbol) : Parse Bool := acceptKind (.symbol s)

/-- Passes over the symbol, which has to be there. -/
def expect (s : Symbol) (place : Place := .here) : Parse Unit := do
  if (← get).seesSymbol s then advance else fail (.missing s place)

/-- Passes over an identifier, which has to be there. -/
def name (named : Named) : Parse String := do
  let r ← get
  if r.sees .identifier then
    advance
    pure r.current.lexeme
  else fail (.missingName named)

/-- The results of a step that is repeated until it yields nothing, at most once for each of
the rounds. -/
def manyFor {α : Type} (step : Parse (Option α)) : List Item → Parse (List α)
  | [] => pure []
  | _ :: rounds => do
    match ← step with
    | none => pure []
    | some a => return a :: (← manyFor step rounds)

/-- The results of a step that is repeated until it yields nothing. A step that yields
something has taken a token. -/
def many {α : Type} (step : Parse (Option α)) : Parse (List α) := do
  manyFor step (← get).remaining

/-- One or more items with commas between them. -/
def commaSeparated {α : Type} (item : Parse α) : Parse (List α) := do
  let first ← item
  let rest ← many do
    if ← accept .comma then return some (← item) else pure none
  return first :: rest

/-- The step inside a scope of its own, which is closed whatever happens. -/
def inScope {α : Type} (step : Parse α) : Parse α := fun r =>
  let (result, r) := step { r with scopes := r.scopes.push }
  (result, { r with scopes := r.scopes.pop })

/-- Declares a variable in the open scope. A second declaration is a problem, but it counts. -/
def declare (name : String) (type : VarType) (span : Span) : Parse VarRef := do
  let r ← get
  let ((v, again), vars, scopes) := r.scopes.declare r.vars name type span
  let r := { r with vars, scopes }
  set (if again then r.addProblem ⟨.redefinition name, span, none⟩ else r)
  pure v

/-- The variable that a name stands for in the open scope. -/
def resolve (name : String) (span : Span) : Parse VarRef := do
  let r ← get
  let (v, vars, scopes) := r.scopes.resolve r.vars name span
  set { r with vars, scopes }
  pure v

/-- The result of a step; or, if it fails, nothing, after its problem is noted and `recover`
has passed over tokens. -/
def recovering {α : Type} (step : Parse α) (recover : Reader → Reader) : Parse (Option α) :=
  fun r =>
    match step r with
    | (.ok a, r) => (.ok (some a), r)
    | (.error failure, r) => (.ok none, recover (r.addProblem (failure.problemAt r)))

end Parse

end LoopNest
