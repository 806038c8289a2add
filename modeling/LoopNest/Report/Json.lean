import LoopNest.JsonValue
import LoopNest.Report

/-!
# Reports as JSON

The members of a report and of its parts, in the order in which they are written.
-/

namespace LoopNest

open JsonValue

def Level.variantName : Level → String
  | .outer => "Outer"
  | .inner => "Inner"

def Direction.variantName : Direction → String
  | .ascending => "Ascending"
  | .descending => "Descending"

def UpdateOp.variantName : UpdateOp → String
  | .preIncrement => "PreIncrement"
  | .preDecrement => "PreDecrement"
  | .postIncrement => "PostIncrement"
  | .postDecrement => "PostDecrement"
  | .addAssign => "AddAssign"
  | .subAssign => "SubAssign"

def Span.json (s : Span) : JsonValue :=
  object
    [("start_line", ofNat s.start.line), ("start_column", ofNat s.start.column),
      ("end_line", ofNat s.stop.line), ("end_column", ofNat s.stop.column),
      ("start_offset", ofNat s.start.offset), ("end_offset", ofNat s.stop.offset)]

def LoopSummary.json (l : LoopSummary) : JsonValue :=
  object
    [("kernel", string l.kernel), ("attribute", string l.level.variantName),
      ("dim", ofOption number l.dimension), ("depth", ofNat l.depth), ("line", ofNat l.line),
      ("iterator", string l.iterator), ("init", string l.init), ("bound", string l.bound),
      ("inclusive", bool l.inclusive),
      ("update", ofOption (fun u => string u.variantName) l.update),
      ("step", ofOption string l.step),
      ("direction", ofOption (fun d => string d.variantName) l.direction),
      ("trip_count", string l.tripCount), ("value_at_flat_index", string l.valueAtIndex)]

def Rejection.json (r : Rejection) : JsonValue :=
  object
    [("message", string r.message), ("span", r.span.json), ("kind", string r.violation.name)]

def Diagnostic.json (d : Diagnostic) : JsonValue :=
  object
    [("severity", string d.severity.name), ("message", string d.message), ("span", d.span.json),
      ("notes", array (d.notes.map string))]

def Report.json (r : Report) : JsonValue :=
  object
    [("ok", bool r.ok), ("loops", array (r.loops.map LoopSummary.json)),
      ("errors", array (r.errors.map Rejection.json)),
      ("diagnostics", array (r.diagnostics.map Diagnostic.json))]

end LoopNest
