/-!
# Positions and spans

A `Position` is a place between two characters of a source text: its line and column count
characters from one, its offset counts bytes from zero. A `Span` is the text between two
positions.

* `Position.past`: the position behind a stretch of text.
* `Span.merge`: the smallest span that covers two spans; a node without text of its own
  carries `Span.none`, which `merge` ignores.
-/

namespace LoopNest

/-- A place in a source text. -/
structure Position where
  line : Nat
  column : Nat
  offset : Nat
deriving DecidableEq, Repr, Inhabited

namespace Position

/-- The position before the first character. -/
def start : Position := ⟨1, 1, 0⟩

/-- The position of a node that has no text of its own. -/
def none : Position := ⟨0, 0, 0⟩

/-- The position behind the character `c`. A newline opens the next line. -/
def next (p : Position) (c : Char) : Position :=
  if c = '\n' then ⟨p.line + 1, 1, p.offset + c.utf8Size⟩
  else ⟨p.line, p.column + 1, p.offset + c.utf8Size⟩

/-- The position behind the text `cs`. -/
def past (p : Position) (cs : List Char) : Position := cs.foldl next p

@[simp] theorem past_nil (p : Position) : p.past [] = p := rfl

@[simp] theorem past_cons (p : Position) (c : Char) (cs : List Char) :
    p.past (c :: cs) = (p.next c).past cs := rfl

theorem past_append (p : Position) (cs ds : List Char) :
    p.past (cs ++ ds) = (p.past cs).past ds := by
  simp [past, List.foldl_append]

def text (p : Position) : String := s!"{p.line}:{p.column}"

end Position

/-- The source text between two positions. -/
structure Span where
  start : Position
  stop : Position
deriving DecidableEq, Repr, Inhabited

namespace Span

/-- The span of a node that has no text of its own. -/
def none : Span := ⟨Position.none, Position.none⟩

/-- A span given by lines and columns alone. -/
def ofLines (startLine startColumn stopLine stopColumn : Nat) : Span :=
  ⟨⟨startLine, startColumn, 0⟩, ⟨stopLine, stopColumn, 0⟩⟩

/-- Lines count from one, so a span on line zero points nowhere. -/
def isNone (s : Span) : Bool := s.start.line == 0 && s.stop.line == 0

/-- The smallest span that covers both spans. A span that points nowhere is ignored, so that
a made-up node does not drag a span back to the start of the file. -/
def merge (s t : Span) : Span :=
  if s.isNone then t
  else if t.isNone then s
  else
    ⟨if s.start.offset ≤ t.start.offset then s.start else t.start,
     if t.stop.offset ≤ s.stop.offset then s.stop else t.stop⟩

/-- The number of bytes in the span. -/
def length (s : Span) : Nat := s.stop.offset - s.start.offset

def isEmpty (s : Span) : Bool := s.start.offset == s.stop.offset

/-- The line of the end is written only if it differs from the line of the start. -/
def text (s : Span) : String :=
  if s.start.line = s.stop.line then s!"{s.start.text}-{s.stop.column}"
  else s!"{s.start.text}-{s.stop.text}"

end Span

/-- A message with the place that it is about. -/
def located (message : String) (span : Span) : String := s!"{message} at {span.text}"

end LoopNest
