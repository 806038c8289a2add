import LoopNest.Nest

/-!
# The journal of a check

The records that a check leaves, in the order of its events.
-/

namespace LoopNest

namespace Descriptor

/-- The clauses of a header that were looked at: each one behind a clause without broken
rules. -/
def clauseRecords (d : Descriptor) : List LogRecord :=
  [⟨.trace, .header, "Checking loop init"⟩] ++
    (if d.iterator.isSome then [⟨.trace, .header, "Checking loop condition"⟩] else []) ++
    (if d.bound.isSome then [⟨.trace, .header, "Checking loop update"⟩] else [])

def outcomeText (d : Descriptor) : String :=
  match d.failure with
  | some r => s!"Rejected loop: {r.text}"
  | none =>
    let name := (d.iteratorVar?.map VarRef.name).getD ""
    let bound := if d.isInclusive then "inclusive" else "exclusive"
    let direction := (d.direction?.map Direction.text).getD ""
    s!"Valid loop over {name}: {bound} bound, {direction} step"

def records (d : Descriptor) : List LogRecord :=
  d.clauseRecords ++ [⟨.debug, .header, d.outcomeText⟩]

end Descriptor

namespace Event

/-- The records of an event, without its diagnostic. -/
def ownRecords : Event → List LogRecord
  | entered kernel => [⟨.debug, .nesting, s!"Checking kernel {kernel}"⟩]
  | passed level span => [⟨.trace, .nesting, s!"Visiting {level.text} loop at {span.text}"⟩]
  | described d => d.records
  | rejected kernel r _ => [⟨.debug, .nesting, s!"Kernel {kernel}: {r.text}"⟩]
  | accepted _ => []

/-- The records of an event and, if diagnostics are printed, those of its diagnostic. -/
def records (e : Event) (config : CheckConfig) (sink : Sink) : List LogRecord :=
  e.ownRecords ++
    if config.printErrors then (e.diagnostic?.map sink.records).getD [] else []

end Event

namespace Classification

def records (c : Classification) (config : CheckConfig) (sink : Sink) : List LogRecord :=
  c.events.flatMap fun e => e.records config sink

/-- The record at the end of the check of a program. -/
def summaryRecord (c : Classification) : LogRecord :=
  ⟨.debug, .nesting,
    s!"Classified {c.loops.length} loops with {c.errors.length} errors"⟩

end Classification

end LoopNest
