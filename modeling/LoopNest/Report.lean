import LoopNest.Expr.Text
import LoopNest.Grammar.Stmt
import LoopNest.Nest

/-!
# Reports

A report says of a program which loops are accepted, with their arithmetic as text, and which
rules are broken.

* `Program.check`: the report on a program.
* `Report.ofSource`: the report on a source text.
-/

namespace LoopNest

/-- What a report says of an accepted loop. -/
structure LoopSummary where
  kernel : String
  level : Level
  dimension : Option Int
  depth : Nat
  line : Nat
  iterator : String
  init : String
  bound : String
  inclusive : Bool
  update : Option UpdateOp
  step : Option String
  direction : Option Direction
  tripCount : String
  valueAtIndex : String
deriving DecidableEq, Repr

/-- The summary of a loop, with the value of its iterator at an index. -/
def MappedLoop.summary (l : MappedLoop) (index : Expr) : Except ArithmeticError LoopSummary := do
  let d := l.descriptor
  let count ← d.tripCount
  let value ← d.valueAt index
  return {
    kernel := l.kernel
    level := l.level
    dimension := l.dimension
    depth := l.depth
    line := l.span.start.line
    iterator := (d.iteratorVar?.map VarRef.name).getD ""
    init := (d.init?.map Expr.text).getD ""
    bound := (d.bound.map fun b => b.value.text).getD ""
    inclusive := d.isInclusive
    update := d.updateOp?
    step := d.stepValue?.map Expr.text
    direction := d.direction?
    tripCount := count.text
    valueAtIndex := value.text }

structure Report where
  ok : Bool
  loops : List LoopSummary
  errors : List Rejection
  diagnostics : List Diagnostic
deriving DecidableEq, Repr

/-- The program with one more variable, which stands for the index of an iteration, and a
reference to that variable. -/
def Program.withIndex (p : Program) (name : String) : Expr × Program :=
  let (v, vars) := p.vars.declareImplicit name .none
  (.var .none v, { p with vars })

def Classification.report (c : Classification) (config : CheckConfig) (index : Expr) : Report :=
  ⟨c.isOk, c.loops.filterMap fun l => (l.summary index).toOption, c.errors,
    c.diagnostics config⟩

/-- The report on a program, and the program with the variable for the index. -/
def Program.check (p : Program) (config : CheckConfig) : Report × Program :=
  let (index, p) := p.withIndex config.flatIndex
  ((p.classify config).report config index, p)

/-- The report on a source text. -/
def Report.ofSource (source : String) (config : CheckConfig) : Except ReadError Report := do
  return ((← Program.read source).check config).1

/-- The lines on a loop, further in the deeper the loop is. -/
def LoopSummary.text (l : LoopSummary) : String :=
  let dimension := (l.dimension.map fun d => s!"({d})").getD ""
  let indent := String.join (List.replicate l.depth "  ")
  s!"{l.kernel}:{l.line} {l.level.text}{dimension} {indent}{l.iterator}\n" ++
    s!"    trip count:     {l.tripCount}\n    value at index: {l.valueAtIndex}\n"

/-- The report for a reader: the accepted loops, then how many there are and how many rules
are broken. -/
def Report.text (r : Report) : String :=
  String.join (r.loops.map LoopSummary.text) ++
    s!"{r.loops.length} loop(s) accepted, {r.errors.length} error(s)"

end LoopNest
