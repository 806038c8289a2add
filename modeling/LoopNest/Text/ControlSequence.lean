/-!
# Control sequences

A text for a terminal may hold control sequences, which start with the escape character and
are not shown. A text for a file is written without them, and without the other controls.

* `SequenceState.next`: where in a sequence a character leads.
* `withoutSequences`: the text that is left.
* `withoutSequences_of_written`: a text without controls stays as it is.
-/

namespace LoopNest.Text

/-! ## Sequences -/

/-- Where in a control sequence a character stands. -/
inductive SequenceState where
  /-- Outside of any sequence. -/
  | outside
  /-- Behind the escape character. -/
  | escape
  /-- Behind the escape character and a character from the space to the slash. -/
  | intermediate
  /-- Behind `ESC [`, up to the final character. -/
  | control
  /-- Behind `ESC P`. -/
  | device
  /-- In the parameters of a device string. -/
  | deviceParameter
  /-- Behind the parameters of a device string. -/
  | deviceIntermediate
  /-- In a string that the byte `9c` ends. -/
  | string
  /-- Behind `ESC ]`, up to the bell. -/
  | command
deriving DecidableEq, Repr

/-- Whether `c` has a code point from `low` to `high`. -/
def isBetween (low high : Nat) (c : Char) : Bool := low ≤ c.toNat && c.toNat ≤ high

/-- The escape character. -/
def escapeChar : Char := '\x1b'

/-- The controls that cancel any sequence: cancel and substitute. -/
def isCancel (c : Char) : Bool := c == '\x18' || c == '\x1a'

namespace SequenceState

/-- Where the second character of a sequence leads. -/
def second (c : Char) : SequenceState :=
  if isBetween 0x20 0x2f c then intermediate
  else if c = '[' then control
  else if c = ']' then command
  else if c = 'P' then device
  else if c = 'X' || c = '^' || c = '_' then string
  else if isBetween 0x30 0x7e c then outside
  else escape

/-- Where a character leads that neither starts nor cancels a sequence. -/
def proceed : SequenceState → Char → SequenceState
  | outside, _ => outside
  | escape, c => second c
  | intermediate, c => if isBetween 0x30 0x7e c then outside else intermediate
  | control, c => if isBetween 0x40 0x7e c then outside else control
  | device, c =>
    if isBetween 0x20 0x2f c then deviceIntermediate
    else if isBetween 0x30 0x3f c then deviceParameter
    else if isBetween 0x40 0x7e c then string
    else device
  | deviceParameter, c =>
    if isBetween 0x20 0x2f c then deviceIntermediate
    else if isBetween 0x3c 0x7e c then string
    else deviceParameter
  | deviceIntermediate, c => if isBetween 0x30 0x7e c then string else deviceIntermediate
  | string, c => if (String.utf8EncodeChar c).contains 0x9c then outside else string
  | command, c => if c = '\x07' then outside else command

/-- Where a character leads. -/
def next (s : SequenceState) (c : Char) : SequenceState :=
  if c = escapeChar then escape else if isCancel c then outside else s.proceed c

end SequenceState

/-! ## The text that is left -/

/-- The controls that are written: tab, newline, form feed and carriage return. -/
def isLayout (c : Char) : Bool := c == '\t' || c == '\n' || c == '\x0c' || c == '\r'

/-- Whether a character outside of any sequence is written. -/
def isWritten (c : Char) : Bool := isLayout c || (0x20 ≤ c.toNat && c.toNat != 0x7f)

/-- Whether a character is written. Behind the escape character, up to the end of a sequence
that is no string, layout is written as well. -/
def SequenceState.writes (s : SequenceState) (c : Char) : Bool :=
  match s with
  | outside => isWritten c
  | escape | intermediate | control => isLayout c
  | _ => false

/-- The characters that are left when the first of them stands at `s`. Layout inside a sequence
suspends it: what follows is written, up to a control, at which the sequence goes on. A
character that is not ASCII ends a suspended sequence. -/
def stripFrom (s : SequenceState) (suspended : Bool) : List Char → List Char
  | [] => []
  | c :: cs =>
    if suspended && isWritten c then
      c :: if c.toNat < 0x80 then stripFrom s true cs else stripFrom .outside false cs
    else if s.writes c then c :: stripFrom (s.next c) (s != .outside) cs
    else stripFrom (s.next c) false cs

/-- The text without control sequences and without controls other than layout. -/
def withoutSequences (s : String) : String :=
  String.ofList (stripFrom .outside false s.toList)

theorem next_outside_of_written {c : Char} (h : isWritten c = true) :
    SequenceState.outside.next c = .outside := by
  have hEscape : c ≠ escapeChar := by
    rintro rfl
    exact absurd h (by decide)
  simp [SequenceState.next, SequenceState.proceed, hEscape]

theorem stripFrom_of_written {cs : List Char} (h : ∀ c ∈ cs, isWritten c = true) :
    stripFrom .outside false cs = cs := by
  induction cs with
  | nil => rfl
  | cons c cs ih =>
    have hc := h c (by simp)
    simp [stripFrom, SequenceState.writes, hc, next_outside_of_written hc,
      ih fun d hd => h d (by simp [hd])]

/-- A text without controls other than layout is left as it is. -/
theorem withoutSequences_of_written {s : String} (h : ∀ c ∈ s.toList, isWritten c = true) :
    withoutSequences s = s := by
  simp [withoutSequences, stripFrom_of_written h]

end LoopNest.Text
