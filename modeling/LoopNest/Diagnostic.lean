import LoopNest.Journal
import LoopNest.Rejection
import LoopNest.Source.Excerpt

/-!
# Diagnostics

Messages for the author of a source text, shown with the line that they are about. Where they
go is up to a `Sink`; nothing that a sink does has an effect on a check.
-/

namespace LoopNest

inductive Severity where
  | error | warning
deriving DecidableEq, Repr

namespace Severity

def text : Severity → String
  | error => "error"
  | warning => "warning"

def name : Severity → String
  | error => "Error"
  | warning => "Warning"

end Severity

/-- A message with its place and with notes. -/
structure Diagnostic where
  severity : Severity
  message : String
  span : Span
  notes : List String := []
deriving DecidableEq, Repr

namespace Diagnostic

def isError (d : Diagnostic) : Bool := d.severity == .error

def text (d : Diagnostic) : String := d.severity.text ++ ": " ++ located d.message d.span

/-- The message with the line of the source, if there is such a line, and the notes. -/
def render (d : Diagnostic) (source : String) : String :=
  let excerpt := ((Source.excerpt? source d.span).map ("\n" ++ ·)).getD ""
  s!"{d.severity.text}: {d.message}\n  --> {d.span.start.text}" ++ excerpt ++
    String.join (d.notes.map ("\n  = note: " ++ ·))

end Diagnostic

/-! ## Sinks -/

/-- Where diagnostics go. -/
inductive Sink where
  | bag
  | journal
  | discard
deriving DecidableEq, Repr

namespace Sink

/-- The diagnostics that a sink collects. -/
def collected (s : Sink) (d : Diagnostic) : List Diagnostic := if s = bag then [d] else []

/-- The records that a sink writes for a diagnostic. -/
def records (s : Sink) (d : Diagnostic) : List LogRecord :=
  if s = journal then [⟨if d.isError then .error else .warn, .diagnostics, d.text⟩] else []

end Sink

def Rejection.diagnostic (r : Rejection) (notes : List String) : Diagnostic :=
  ⟨.error, r.message, r.span, notes⟩

end LoopNest
