import LoopNest.Diagnostic
import LoopNest.Header.Arithmetic
import LoopNest.Journal

/-!
# Loop nests

Every kernel has loops that are mapped to the levels `@outer` and `@inner`. A check walks
through the kernel and notes every `Event`: a loop that is passed, a rule that is broken, a
loop that is accepted. Errors, loops, diagnostics and records are read off the events. In the
mode that stops at the first rejection, the walk asks before each further step whether it is to
stop.

* `Classification`: the events of a check so far.
* `Walk.checkLoop`: the check of one loop.
* `Stmt.visit`: the walk through a statement inside so many loops.
* `Function.classify`, `Program.classify`: the check of a kernel and of all kernels.
-/

namespace LoopNest

/-! ## Configuration -/

/-- How far a check goes on behind the first rejection. -/
inductive CheckMode where
  | failFast | batch
deriving DecidableEq, Repr

def CheckMode.name : CheckMode → String
  | failFast => "FailFast"
  | batch => "Batch"

structure CheckConfig where
  /-- Whether rejections are reported as diagnostics. -/
  printErrors : Bool := true
  mode : CheckMode := .failFast
  /-- The label in front of every message, unless it is empty. -/
  label : String := ""
  /-- The name of the index in the arithmetic of a report. -/
  flatIndex : String := "flat_idx"
deriving DecidableEq, Repr

/-! ## Events -/

/-- A loop that breaks no rule. -/
structure MappedLoop where
  kernel : String
  level : Level
  /-- The dimension that the attribute names, as in `@outer(1)`. -/
  dimension : Option Int
  /-- The number of mapped loops around the loop. -/
  depth : Nat
  span : Span
  descriptor : Descriptor
deriving Repr

inductive Event where
  | entered (kernel : String)
  | passed (level : Level) (span : Span)
  | described (d : Descriptor)
  | rejected (kernel : String) (r : Rejection) (notes : List String)
  | accepted (l : MappedLoop)
deriving Repr

namespace Event

/-- The rule that is found broken. -/
def rejection? : Event → Option Rejection
  | described d => d.failure
  | rejected _ r _ => some r
  | _ => none

def isRejection (e : Event) : Bool := e.rejection?.isSome

def loop? : Event → Option MappedLoop
  | accepted l => some l
  | _ => none

def diagnostic? : Event → Option Diagnostic
  | described d => d.failure.map fun r => r.diagnostic []
  | rejected _ r notes => some (r.diagnostic notes)
  | _ => none

end Event

/-! ## Classifications -/

/-- What a check has found so far. -/
structure Classification where
  events : List Event := []
deriving Repr

namespace Classification

def errors (c : Classification) : List Rejection := c.events.filterMap Event.rejection?

/-- The loops that break no rule, in the order of the source. -/
def loops (c : Classification) : List MappedLoop := c.events.filterMap Event.loop?

def isOk (c : Classification) : Bool := c.errors.isEmpty

def loopsIn (c : Classification) (kernel : String) : List MappedLoop :=
  c.loops.filter fun l => l.kernel == kernel

/-- The diagnostics of a check, if it is to print them. -/
def diagnostics (c : Classification) (config : CheckConfig) : List Diagnostic :=
  if config.printErrors then c.events.filterMap Event.diagnostic? else []

def add (c : Classification) (e : Event) : Classification := ⟨c.events ++ [e]⟩

/-- The findings of one check with those of the next one behind them. -/
def merge (c next : Classification) : Classification := ⟨c.events ++ next.events⟩

end Classification

namespace CheckMode

/-- Whether a check in that mode goes no further with what it has found. -/
def stops (mode : CheckMode) (c : Classification) : Bool := mode == .failFast && !c.isOk

/-- The next step of a check, unless the check stops before it. -/
def goOn (mode : CheckMode) (next : Classification → Classification) (c : Classification) :
    Classification :=
  if mode.stops c then c else next c

end CheckMode

/-! ## The rules for one loop -/

/-- The mapped loops around a statement. -/
structure Nesting where
  inOuter : Bool := false
  inInner : Bool := false
  depth : Nat := 0
deriving DecidableEq, Repr

/-- The nesting of the body of a loop of that level. -/
def Nesting.enter (n : Nesting) (l : Level) : Nesting :=
  ⟨n.inOuter || l == .outer, n.inInner || l == .inner, n.depth + 1⟩

/-- What is checked: the kernel of that name, with all variables and the label of the source. -/
structure Site where
  kernel : String
  vars : VarTable
  label : String

/-- A walk through a kernel. -/
structure Walk extends Site where
  mode : CheckMode

/-- A declaration in the statement of another variable with the name of `v`. -/
def Stmt.shadowing? (body : Stmt) (v : VarRef) : Option Declarator :=
  (body.statements.flatMap fun s => (s.declarators?).getD []).find? fun d =>
    d.var.name == v.name && !d.var.sameVar v

/-- What may stand between a loop and a loop of the same level directly inside it. -/
def Stmt.mayStandBetween (s : Stmt) : Bool := s.isDeclaration || s.isMappedLoop || s.isEmpty

namespace Walk

def reject (w : Walk) (c : Classification) (v : Violation) (span : Span)
    (notes : List String := []) : Classification :=
  c.add (.rejected w.kernel ⟨v, span, w.label⟩ notes)

/-- The rules on where a loop stands: an `@outer` loop in no `@inner` one, an `@inner` loop in
an `@outer` one, and some `@inner` loop in the outermost `@outer` loop. -/
def checkPosition (w : Walk) (n : Nesting) (level : Level) (mark : Attribute) (body : Stmt)
    (c : Classification) : Classification :=
  match level with
  | .outer =>
    if n.inInner then w.reject c .outerInsideInner mark.span
    else if !n.inOuter && !body.statements.any (Stmt.isMappedTo .inner) then
      w.reject c .missingInnerLoop mark.span
    else c
  | .inner => if n.inOuter then c else w.reject c .innerOutsideOuter mark.span

def checkInitializer (w : Walk) (d : Declarator) (c : Classification) : Classification :=
  if d.value.isNone then w.reject c (.missingInitializer d.var.name) d.span else c

def checkShadowing (w : Walk) (d : Declarator) (body : Stmt) (c : Classification) :
    Classification :=
  match body.shadowing? d.var with
  | some other =>
    w.reject c (.shadowedIterator d.var.name) other.span
      [s!"[{d.var.name}] is declared at {d.span.start.text}"]
  | none => c

/-- The rules on a header, and on the variable of a header without broken rules: it has an
initial value, and nothing in the body has its name. -/
def checkHeader (w : Walk) (d : Descriptor) (body : Stmt) (c : Classification) :
    Classification :=
  let c := c.add (.described d)
  match d.failure, d.iterator with
  | none, some iterator =>
    w.mode.goOn (w.checkShadowing iterator body) (w.checkInitializer iterator c)
  | _, _ => c

/-- Rejects the statements that may not stand between two loops of the level. -/
def rejectBetween (w : Walk) (level : Level) : List Stmt → Classification → Classification
  | [], c => c
  | s :: ss, c =>
    if w.mode.stops c then c
    else if s.mayStandBetween then w.rejectBetween level ss c
    else w.rejectBetween level ss (w.reject c (.invalidStatementBetweenLoops level) s.span)

/-- The rule on the statements between a loop and loops of the same level inside it. -/
def checkBetween (w : Walk) (level : Level) (body : Stmt) (c : Classification) :
    Classification :=
  if body.direct.any (Stmt.isMappedTo level) then w.rejectBetween level body.direct c else c

/-- Accepts a loop if there are as many errors as before its check. -/
def accept (before : Nat) (l : MappedLoop) (c : Classification) : Classification :=
  if c.errors.length == before then c.add (.accepted l) else c

/-- The check of a loop without its body. -/
def checkLoop (w : Walk) (n : Nesting) (head : StmtHead) (level : Level) (mark : Attribute)
    (loop : Loop) (c : Classification) : Classification :=
  let d := loop.describe w.vars w.label
  let before := c.errors.length
  let c := w.checkPosition n level mark loop.body (c.add (.passed level head.span))
  let c := w.mode.goOn (w.checkHeader d loop.body) c
  let c := w.mode.goOn (w.checkBetween level loop.body) c
  w.mode.goOn (accept before ⟨w.kernel, level, mark.dimension?, n.depth, head.span, d⟩) c

end Walk

/-! ## The walk through a kernel -/

mutual

/-- The check of all loops in a statement. -/
def Stmt.visit (w : Walk) (n : Nesting) : Stmt → Classification → Classification
  | .forLoop h init check update body =>
    w.mode.goOn fun c =>
      match (Stmt.forLoop h init check update body).level? with
      | some (level, mark) =>
        body.visit w (n.enter level) (w.checkLoop n h level mark ⟨init, check, update, body⟩ c)
      | none => body.visit w n (update.visit w n (check.visit w n (init.visit w n c)))
  | .block _ body => w.mode.goOn (Stmt.visitAll w n body)
  | .ifThen _ _ t => w.mode.goOn (t.visit w n)
  | .ifElse _ _ t e => w.mode.goOn fun c => e.visit w n (t.visit w n c)
  | .whileLoop _ _ body => w.mode.goOn (body.visit w n)
  | .declaration _ _ | .expression _ _ | .returns _ _ | .empty _ => id

def Stmt.visitAll (w : Walk) (n : Nesting) : List Stmt → Classification → Classification
  | [], c => c
  | s :: ss, c => Stmt.visitAll w n ss (s.visit w n c)

end

/-- The level of a statement that is no loop, with its attribute. -/
def Stmt.misplaced? (s : Stmt) : Option (Level × Attribute) :=
  if s.isLoop then none else s.level?

namespace Walk

/-- Rejects the levels of statements that are no loops. -/
def rejectMisplaced (w : Walk) : List (Level × Attribute) → Classification → Classification
  | [], c => c
  | (level, mark) :: rest, c =>
    if w.mode.stops c then c
    else w.rejectMisplaced rest (w.reject c (.attributeOnNonLoop level) mark.span)

/-- The rule that a kernel has some `@outer` loop. -/
def checkOuterLoop (w : Walk) (f : Function) (c : Classification) : Classification :=
  if f.body.allStatements.any (Stmt.isMappedTo .outer) then c
  else w.reject c (.missingOuterLoop f.name) f.span

/-- The walk through the statements of a kernel. -/
def visitBody (w : Walk) : List Stmt → Classification → Classification
  | [], c => c
  | s :: ss, c => if w.mode.stops c then c else w.visitBody ss (s.visit w {} c)

end Walk

/-- Checks a function as a kernel, whether it is one or not. -/
def Function.classify (f : Function) (vars : VarTable) (config : CheckConfig) : Classification :=
  let w : Walk := ⟨⟨f.name, vars, config.label⟩, config.mode⟩
  let c := w.rejectMisplaced (f.body.allStatements.filterMap Stmt.misplaced?)
    ⟨[.entered f.name]⟩
  w.visitBody f.body.statements (w.mode.goOn (w.checkOuterLoop f) c)

/-- Checks one kernel after the other, with what was found in those before. -/
def classifyAll (vars : VarTable) (config : CheckConfig) :
    List Function → Classification → Classification
  | [], c => c
  | f :: fs, c =>
    config.mode.goOn (classifyAll vars config fs) (c.merge (f.classify vars config))

/-- Checks all kernels of a program. -/
def Program.classify (p : Program) (config : CheckConfig) : Classification :=
  classifyAll p.vars config p.kernels {}

end LoopNest
