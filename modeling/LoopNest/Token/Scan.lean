import LoopNest.Text.CharClass
import LoopNest.Text.Digits
import LoopNest.Token

/-!
# Cutting a source text into tokens

A `Cursor` stands at a place of the source text. `Cursor.next` passes over blanks and
comments and reads the longest token behind them, or the fault in its place; after a fault
the cursor stands behind it, so that reading can go on.

* `skipGap`: blanks, `//` comments and `/* */` comments, which do not nest.
* `scanLexeme`: the token or the fault at the front of a text.
* `scan`: all tokens and faults of a source, the end of the file last.
* `tokenize`: the tokens of a source without faults.
-/

namespace LoopNest

/-- A place in a source text and the text behind it. -/
structure Cursor where
  position : Position
  rest : List Char
deriving DecidableEq, Repr

def Cursor.ofText (source : String) : Cursor := ⟨Position.start, source.toList⟩

/-! ## Gaps between tokens -/

/-- Where a reader is between two tokens. A block comment remembers where it started. -/
inductive Gap where
  | blank
  | lineComment
  | blockComment (start : Position)
deriving DecidableEq, Repr

/-- Passes over blanks and comments. -/
def skipGap : Gap → Position → List Char → Except Fault Cursor
  | .blockComment start, p, [] => .error ⟨.openComment, ⟨start, p⟩⟩
  | _, p, [] => .ok ⟨p, []⟩
  | .blank, p, '/' :: '/' :: cs => skipGap .lineComment (p.past ['/', '/']) cs
  | .blank, p, '/' :: '*' :: cs => skipGap (.blockComment p) (p.past ['/', '*']) cs
  | .blank, p, c :: cs =>
    if Text.isBlank c then skipGap .blank (p.next c) cs else .ok ⟨p, c :: cs⟩
  | .lineComment, p, c :: cs =>
    skipGap (if c = '\n' then .blank else .lineComment) (p.next c) cs
  | .blockComment _, p, '*' :: '/' :: cs => skipGap .blank (p.past ['*', '/']) cs
  | .blockComment start, p, c :: cs => skipGap (.blockComment start) (p.next c) cs

/-! ## Lexemes -/

/-- The front of a text: what it is, its characters and the text behind it. -/
structure Lexeme where
  verdict : Except Fault.Cause Token.Kind
  chars : List Char
  rest : List Char

/-- The fraction at the front of a text, a point with digits behind it, and the rest. -/
def splitFraction : List Char → List Char × List Char
  | '.' :: d :: cs =>
    if d.isDigit then ('.' :: d :: (Text.splitDigits cs).1, (Text.splitDigits cs).2)
    else ([], '.' :: d :: cs)
  | cs => ([], cs)

/-- The suffix of a single-precision literal at the front of a text, and the rest. -/
def splitSuffix : List Char → List Char × List Char
  | 'f' :: cs => (['f'], cs)
  | 'F' :: cs => (['F'], cs)
  | cs => ([], cs)

/-- A float literal whose digits are read, up to its suffix. -/
def floatLexeme (chars rest : List Char) : Lexeme :=
  ⟨.ok .float, chars ++ (splitSuffix rest).1, (splitSuffix rest).2⟩

/-- The exponent behind `mark`, which is read already. -/
def scanExponent (mark rest : List Char) : Lexeme :=
  let (sign, rest) := Text.splitSign rest
  let (digits, rest) := Text.splitDigits rest
  if digits.isEmpty then ⟨.error .bareExponent, mark ++ sign, rest⟩
  else floatLexeme (mark ++ sign ++ digits) rest

def scanNumber (cs : List Char) : Lexeme :=
  let (whole, rest) := Text.splitDigits cs
  let (fraction, rest) := splitFraction rest
  match rest with
  | 'e' :: rest => scanExponent (whole ++ fraction ++ ['e']) rest
  | 'E' :: rest => scanExponent (whole ++ fraction ++ ['E']) rest
  | rest =>
    if fraction.isEmpty then ⟨.ok .integer, whole, rest⟩ else floatLexeme (whole ++ fraction) rest

def scanWord (cs : List Char) : Lexeme :=
  let chars := cs.takeWhile Text.isIdentifierPart
  ⟨.ok (.ofWord (String.ofList chars)), chars, cs.dropWhile Text.isIdentifierPart⟩

/-- A symbol of two characters if there is one, else one of a single character. -/
def scanSymbol? (c : Char) (cs : List Char) : Option Lexeme :=
  match cs.head?.bind fun d => Symbol.ofChars? [c, d] with
  | some s => some ⟨.ok (.symbol s), s.chars, cs.tail⟩
  | none => (Symbol.ofChars? [c]).map fun s => ⟨.ok (.symbol s), [c], cs⟩

def strayCause (c : Char) : Fault.Cause :=
  if c = '&' || c = '|' then .halfOperator c else .strayChar c

/-- The token, or the fault, at the front of the text `c :: cs`. -/
def scanLexeme (c : Char) (cs : List Char) : Lexeme :=
  match scanSymbol? c cs with
  | some lexeme => lexeme
  | none =>
    if c.isDigit then scanNumber (c :: cs)
    else if Text.isIdentifierStart c then scanWord (c :: cs)
    else ⟨.error (strayCause c), [c], cs⟩

/-! ## Items -/

/-- What a source text is made of. -/
inductive Item where
  | token (t : Token)
  | fault (f : Fault)
deriving DecidableEq, Repr

namespace Item

def span : Item → Span
  | token t => t.span
  | fault f => f.span

def isEnd : Item → Bool
  | token t => t.isEnd
  | fault _ => false

end Item

def Lexeme.item (l : Lexeme) (start : Position) : Item :=
  let span : Span := ⟨start, start.past l.chars⟩
  match l.verdict with
  | .ok kind => .token ⟨kind, span, String.ofList l.chars⟩
  | .error cause => .fault ⟨cause, span⟩

namespace Cursor

/-- The next token or fault, and the cursor behind it. At the end of the text this is the end
of the file, again and again. -/
def next (c : Cursor) : Item × Cursor :=
  match skipGap .blank c.position c.rest with
  | .error fault => (.fault fault, ⟨fault.span.stop, []⟩)
  | .ok ⟨p, []⟩ => (.token ⟨.endOfFile, ⟨p, p⟩, ""⟩, ⟨p, []⟩)
  | .ok ⟨p, d :: cs⟩ =>
    let lexeme := scanLexeme d cs
    (lexeme.item p, ⟨p.past lexeme.chars, lexeme.rest⟩)

/-- The items up to the end of the file, but at most `n` of them. -/
def items : Nat → Cursor → List Item
  | 0, _ => []
  | n + 1, c =>
    let (item, c) := c.next
    if item.isEnd then [item] else item :: items n c

end Cursor

/-- The tokens and faults of a source, the end of the file last. Each of them but the last
takes a character, so that there is at most one more of them than there are characters. -/
def scan (source : String) : List Item :=
  (Cursor.ofText source).items (source.length + 1)

/-- The tokens among the items up to the first fault. -/
def tokensOf : List Item → Except Fault (List Token)
  | [] => .ok []
  | .token t :: items => (tokensOf items).map (t :: ·)
  | .fault f :: _ => .error f

/-- The tokens of a source, the end of the file last. -/
def tokenize (source : String) : Except Fault (List Token) := tokensOf (scan source)

end LoopNest
