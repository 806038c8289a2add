import LoopNest.Token

/-!
# Problems in a source text

What can be wrong with the tokens of a source text. A `Problem` is a cause with the place at
which it was noticed; `Problem.Cause.message` has the wording.
-/

namespace LoopNest

/-- The part of a construct behind which a delimiter is missing. -/
inductive Place where
  | here
  | functionName | parameters | attributeArguments | arguments
  | forKeyword | forInit | forCondition | forHeader
  | ifKeyword | whileKeyword | condition
  | expression | returnValue | declaration | arraySize
deriving DecidableEq, Repr

namespace Place

/-- The words that a message adds for the place. -/
def text : Place → String
  | here => ""
  | functionName => " after function name"
  | parameters => " after parameters"
  | attributeArguments => " after attribute arguments"
  | arguments => " after arguments"
  | forKeyword => " after 'for'"
  | forInit => " after for-loop init"
  | forCondition => " after for-loop condition"
  | forHeader => " after for-loop header"
  | ifKeyword => " after 'if'"
  | whileKeyword => " after 'while'"
  | condition => " after condition"
  | expression => " after expression"
  | returnValue => " after return"
  | declaration => " after declaration"
  | arraySize => " after array size"

end Place

/-- What an identifier names at its place. -/
inductive Named where
  | attributeName | functionName | parameterName | variableName
deriving DecidableEq, Repr

def Named.text : Named → String
  | attributeName => "attribute name"
  | functionName => "function name"
  | parameterName => "parameter name"
  | variableName => "variable name"

inductive Problem.Cause where
  | missing (wanted : Symbol) (place : Place)
  | missingName (named : Named)
  | missingType
  | missingExpression
  | integerTooLarge
  | malformedFloat
  | redefinition (name : String)
  | unreadable (fault : Fault)
deriving DecidableEq, Repr

def Problem.Cause.message : Problem.Cause → String
  | missing wanted place =>
    s!"Expected '{wanted.text}'{place.text}: expected '{wanted.text}'"
  | missingName named => s!"Expected {named.text}"
  | missingType => "Expected a type"
  | missingExpression => "Expected an expression"
  | integerTooLarge => "Invalid integer literal"
  | malformedFloat => "Invalid float literal"
  | redefinition name => s!"Redefinition of '{name}'"
  | unreadable fault => fault.text

/-- A cause, where it was noticed and the token that stood there, if that matters. -/
structure Problem where
  cause : Problem.Cause
  span : Span
  found : Option Token.Kind
deriving DecidableEq, Repr

/-- A message with its place and with what was found there. -/
def foundText (message : String) (span : Span) : Option String → String
  | some found => s!"{located message span} (found: {found})"
  | none => located message span

namespace Problem

def message (p : Problem) : String := p.cause.message

def text (p : Problem) : String :=
  foundText p.message p.span (p.found.map Token.Kind.quotedName)

end Problem

/-- Why a source text is no program: its first token cannot be read, or there are problems. -/
inductive ReadError where
  | fault (f : Fault)
  | problems (ps : List Problem)
deriving DecidableEq, Repr

def ReadError.text : ReadError → String
  | fault f => f.text
  | problems ps => "Parse errors:\n  " ++ "\n  ".intercalate (ps.map Problem.text)

end LoopNest
