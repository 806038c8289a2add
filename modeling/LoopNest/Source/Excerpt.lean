import LoopNest.Source.Span

/-!
# Quoting a source line

An excerpt quotes the line on which a span starts and underlines the span with carets:

    3 | for (int i = 0, j = 0; i < N; ++i; @outer)
      |                 ^^^^^

* `lines`: the lines of a text, without their terminators.
* `excerpt?`: the quoted line, if the text has it.
-/

namespace LoopNest.Source

/-- Adds a character in front of a text that is cut at its newlines. -/
def addFront (c : Char) (ps : List (List Char)) : List (List Char) :=
  if c = '\n' then [] :: ps
  else
    match ps with
    | [] => [[c]]
    | p :: ps => (c :: p) :: ps

/-- Cuts a text at its newlines, of which there is one fewer than there are pieces. -/
def pieces (cs : List Char) : List (List Char) := cs.foldr addFront [[]]

/-- A line without the carriage returns that end it. -/
def withoutReturns (cs : List Char) : List Char :=
  (cs.reverse.dropWhile (· == '\r')).reverse

/-- The lines of a text, without their terminators. Text that ends in a newline has an empty
last line. -/
def lines (source : String) : List String :=
  (pieces source.toList).map fun p => String.ofList (withoutReturns p)

/-- The line of that number, counted from one. -/
def line? (source : String) : Nat → Option String
  | 0 => Option.none
  | n + 1 => (lines source)[n]?

/-- The number of carets under a span whose first line reads `text`. On a line that the span
runs past, the carets go to the width of the line in bytes. -/
def caretCount (text : String) (s : Span) : Nat :=
  if s.stop.line = s.start.line then max (s.stop.column - s.start.column) 1
  else max (text.utf8ByteSize - (s.start.column - 1)) 1

def repeated (c : Char) (n : Nat) : String := String.ofList (List.replicate n c)

/-- The line on which the span starts, underlined from the span's start. -/
def excerpt? (source : String) (s : Span) : Option String :=
  (line? source s.start.line).map fun text =>
    let number := toString s.start.line
    let gutter := repeated ' ' number.length
    s!"{number} | {text}\n{gutter} | " ++
      repeated ' ' (s.start.column - 1) ++ repeated '^' (caretCount text s)

end LoopNest.Source
