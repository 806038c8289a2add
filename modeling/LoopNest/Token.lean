import LoopNest.Source.Span
import LoopNest.VarType

/-!
# Tokens

A token is a stretch of source text with the kind that its text determines. A stretch that is
no token is a `Fault`.
-/

namespace LoopNest

/-! ## Keywords -/

inductive Keyword where
  | forLoop | whileLoop | ifThen | elseBranch | returnValue
  | bool (value : Bool)
  | type (base : BaseType)
deriving DecidableEq, Repr

namespace Keyword

def text : Keyword → String
  | forLoop => "for"
  | whileLoop => "while"
  | ifThen => "if"
  | elseBranch => "else"
  | returnValue => "return"
  | bool true => "true"
  | bool false => "false"
  | type base => base.text

def all : List Keyword :=
  [forLoop, whileLoop, ifThen, elseBranch, returnValue, bool true, bool false] ++
    BaseType.all.map type

/-- The keyword that is written like this, if there is one. -/
def ofText? (s : String) : Option Keyword := all.find? fun k => k.text == s

end Keyword

/-! ## Operators and delimiters -/

/-- A token of one or two punctuation characters. -/
inductive Symbol where
  | plus | minus | star | slash | percent | plusPlus | minusMinus
  | equalEqual | bangEqual | less | lessEqual | greater | greaterEqual
  | equal | plusEqual | minusEqual | starEqual | slashEqual
  | ampAmp | pipePipe | bang
  | leftParen | rightParen | leftBracket | rightBracket | leftBrace | rightBrace
  | comma | semicolon | atSign
deriving DecidableEq, Repr

namespace Symbol

def chars : Symbol → List Char
  | plus => ['+']
  | minus => ['-']
  | star => ['*']
  | slash => ['/']
  | percent => ['%']
  | plusPlus => ['+', '+']
  | minusMinus => ['-', '-']
  | equalEqual => ['=', '=']
  | bangEqual => ['!', '=']
  | less => ['<']
  | lessEqual => ['<', '=']
  | greater => ['>']
  | greaterEqual => ['>', '=']
  | equal => ['=']
  | plusEqual => ['+', '=']
  | minusEqual => ['-', '=']
  | starEqual => ['*', '=']
  | slashEqual => ['/', '=']
  | ampAmp => ['&', '&']
  | pipePipe => ['|', '|']
  | bang => ['!']
  | leftParen => ['(']
  | rightParen => [')']
  | leftBracket => ['[']
  | rightBracket => [']']
  | leftBrace => ['\x7b']
  | rightBrace => ['\x7d']
  | comma => [',']
  | semicolon => [';']
  | atSign => ['@']

def text (s : Symbol) : String := String.ofList s.chars

def all : List Symbol :=
  [plus, minus, star, slash, percent, plusPlus, minusMinus,
    equalEqual, bangEqual, less, lessEqual, greater, greaterEqual,
    equal, plusEqual, minusEqual, starEqual, slashEqual, ampAmp, pipePipe, bang,
    leftParen, rightParen, leftBracket, rightBracket, leftBrace, rightBrace,
    comma, semicolon, atSign]

/-- The symbol that is written like this, if there is one. -/
def ofChars? (cs : List Char) : Option Symbol := all.find? fun s => s.chars == cs

theorem mem_all (s : Symbol) : s ∈ all := by cases s <;> decide

theorem ofChars?_chars (s : Symbol) : ofChars? s.chars = some s := by cases s <;> decide

end Symbol

/-! ## Tokens -/

inductive Token.Kind where
  | integer
  | float
  | identifier
  | keyword (k : Keyword)
  | symbol (s : Symbol)
  | endOfFile
deriving DecidableEq, Repr

namespace Token.Kind

def name : Token.Kind → String
  | integer => "integer"
  | float => "float literal"
  | identifier => "identifier"
  | keyword k => k.text
  | symbol s => s.text
  | endOfFile => "end of file"

def quotedName (k : Token.Kind) : String := s!"'{k.name}'"

/-- The type that a type keyword names. -/
def baseType? : Token.Kind → Option BaseType
  | keyword (.type base) => some base
  | _ => none

def isType (k : Token.Kind) : Bool := k.baseType?.isSome

def isKeyword : Token.Kind → Bool
  | keyword _ => true
  | _ => false

/-- The kind of a text that has the form of an identifier. -/
def ofWord (s : String) : Token.Kind :=
  match Keyword.ofText? s with
  | some k => keyword k
  | none => identifier

end Token.Kind

structure Token where
  kind : Token.Kind
  span : Span
  lexeme : String
deriving DecidableEq, Repr

def Token.isEnd (t : Token) : Bool := t.kind == .endOfFile

/-! ## Faults -/

/-- Why a stretch of text is no token. -/
inductive Fault.Cause where
  | strayChar (c : Char)
  | halfOperator (c : Char)
  | bareExponent
  | openComment
deriving DecidableEq, Repr

def Fault.Cause.message : Fault.Cause → String
  | strayChar c => s!"Unexpected character: '{c}'"
  | halfOperator c => s!"Expected '{c}{c}', found single '{c}'"
  | bareExponent => "Invalid floating-point exponent"
  | openComment => "Unterminated block comment"

/-- A stretch of text that is no token. -/
structure Fault where
  cause : Fault.Cause
  span : Span
deriving DecidableEq, Repr

namespace Fault

def message (f : Fault) : String := f.cause.message

def text (f : Fault) : String := located f.message f.span

end Fault

end LoopNest
