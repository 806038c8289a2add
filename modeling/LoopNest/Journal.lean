/-!
# The journal of a run

A run may keep a journal of what it does. A record has a level, the part of the program that
it comes from, and a message.
-/

namespace LoopNest

/-- How much a record matters. -/
inductive LogLevel where
  | error | warn | info | debug | trace
deriving DecidableEq, Repr

namespace LogLevel

def text : LogLevel → String
  | error => "ERROR"
  | warn => "WARN"
  | info => "INFO"
  | debug => "DEBUG"
  | trace => "TRACE"

/-- The records that matter more have the lower rank. -/
def rank : LogLevel → Nat
  | error => 0
  | warn => 1
  | info => 2
  | debug => 3
  | trace => 4

end LogLevel

/-- The part of the program that a record comes from. -/
inductive LogSource where
  | program | nesting | header | diagnostics
deriving DecidableEq, Repr

def LogSource.text : LogSource → String
  | program => "devloop"
  | nesting => "devloop::analysis::classify"
  | header => "devloop::analysis::loop_shape"
  | diagnostics => "devloop::utils::diagnostics"

structure LogRecord where
  level : LogLevel
  source : LogSource
  message : String
deriving DecidableEq, Repr

namespace LogRecord

def text (r : LogRecord) : String := s!"{r.level.text} {r.source.text} {r.message}"

/-- The record with its level in brackets, padded to five characters. -/
def bracketed (r : LogRecord) : String :=
  let padding := String.ofList (List.replicate (5 - r.level.text.length) ' ')
  s!"[{r.level.text}{padding} {r.source.text}] {r.message}"

/-- The records that matter at least as much as `limit`. -/
def upTo (limit : LogLevel) (rs : List LogRecord) : List LogRecord :=
  rs.filter fun r => r.level.rank ≤ limit.rank

end LogRecord

end LoopNest
