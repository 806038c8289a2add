import LoopNest.CommandLine.Options
import LoopNest.Nest.Records
import LoopNest.Report.Json
import LoopNest.Stmt.Text
import LoopNest.Text.ControlSequence
import LoopNest.Text.Quoted

/-!
# What the program does

A run of the program is a `Plan`: it reads a file, may write one, and ends with an exit code
and with what is on the two output streams. Each step depends on what became of the one
before it, so that a plan can be carried out on any files.

* `Options.plan`: the run for some options.
* `plan`: the run for a command line.
-/

namespace LoopNest

/-! ## Plans -/

/-- Why a file cannot be read or written. -/
inductive FileError where
  | notFound
  | permissionDenied
  | notADirectory
  | isADirectory
  | nameTooLong
  | other (message : String)
deriving DecidableEq, Repr

def FileError.text : FileError → String
  | notFound => "No such file or directory (os error 2)"
  | permissionDenied => "Permission denied (os error 13)"
  | notADirectory => "Not a directory (os error 20)"
  | isADirectory => "Is a directory (os error 21)"
  | nameTooLong => "File name too long (os error 36)"
  | other message => message

/-- How a run ends. -/
structure Outcome where
  code : Nat
  stdout : String := ""
  stderr : String := ""
deriving DecidableEq, Repr

inductive Plan where
  | exit (o : Outcome)
  | load (name : String) (next : Except FileError ByteArray → Plan)
  | store (name content : String) (next : Except FileError Unit → Plan)

/-! ## Messages -/

/-- The program's name and its version. -/
def programName : String := "devloop"

def version : String := "0.1.0"

/-- A text with the lines behind the first one four columns further in. -/
def hanging (s : String) : String :=
  String.ofList (s.toList.flatMap fun c => if c = '\n' then ['\n', ' ', ' ', ' ', ' '] else [c])

/-- A text with its lines four columns further in. -/
def indented (s : String) : String := "    " ++ hanging s

/-- The message of a failed run: what failed, and why. -/
def failureText (what why : String) : String :=
  s!"Error: {what}\n\nCaused by:\n{indented why}\n"

/-- A record on the error stream, without control sequences. One that is left open runs to the
end of the record and takes its newline with it. -/
def recordLine (r : LogRecord) : String :=
  Text.withoutSequences (hanging r.bracketed ++ "\n")

def usageText : String :=
  "Usage: devloop [OPTIONS] <FILE>\n\n" ++
    "Options:\n" ++
    "  -o, --output <FILE>      Output file (defaults to stdout)\n" ++
    "      --label <LABEL>      Label prefixed to every loop error\n" ++
    "      --batch              Report every malformed loop instead of stopping at the first\n" ++
    "      --flat-index <NAME>  Name of the flat index in synthesized expressions\n" ++
    "      --emit <EMIT>        What to emit: report, json or ast\n" ++
    "  -v, --verbose            Verbose output (-v, -vv, -vvv)\n" ++
    "  -q, --quiet              Quiet mode (no diagnostics on stderr)\n" ++
    "  -h, --help               Print help\n" ++
    "  -V, --version            Print version\n"

def Refusal.outcome : Refusal → Outcome
  | usage => { code := 2, stderr := "error: invalid command line\n\n" ++ usageText }
  | help => { code := 0, stdout := usageText }
  | version => { code := 0, stdout := s!"{programName} {LoopNest.version}\n" }

/-! ## The run for some options -/

/-- The configuration on one line. -/
def CheckConfig.text (c : CheckConfig) : String :=
  s!"CheckConfig \x7b print_errors: {c.printErrors}, mode: {c.mode.name}, " ++
    s!"source_label: {Text.quoted c.label}, flat_index_name: {Text.quoted c.flatIndex} \x7d"

/-- The records of the check of a program, in the order in which they are made. -/
def Program.checkRecords (p : Program) (config : CheckConfig) : List LogRecord :=
  let p := (p.withIndex config.flatIndex).2
  let c := p.classify config
  c.records config .bag ++
    [c.summaryRecord, ⟨.info, .program,
      s!"{c.loops.length} loops accepted, {c.errors.length} rejected"⟩]

namespace Options

def config (o : Options) : CheckConfig :=
  { mode := if o.batch then .batch else .failFast
    label := o.label.getD ""
    flatIndex := o.flatIndex }

/-- The least important records that are shown. -/
def logLevel (o : Options) : LogLevel :=
  if o.quiet then .error
  else
    match o.verbose with
    | 0 => .warn
    | 1 => .info
    | 2 => .debug
    | _ => .trace

/-- The records that are shown, as text. -/
def log (o : Options) (rs : List LogRecord) : String :=
  String.join ((LogRecord.upTo o.logLevel rs).map recordLine)

def info (message : String) : LogRecord := ⟨.info, .program, message⟩

def debug (message : String) : LogRecord := ⟨.debug, .program, message⟩

/-- Writes the content and ends the run with that code. On the standard output the content
gets a newline. The error stream holds `before`, and `after` once the content is written. -/
def deliver (o : Options) (content before after : String) (code : Nat) : Plan :=
  match o.output with
  | none => .exit { code, stdout := content ++ "\n", stderr := before ++ after }
  | some name =>
    .store name content fun
      | .ok _ => .exit { code, stderr := before ++ after }
      | .error e =>
        let what := "Failed to write output file: " ++ Text.quotedPath name
        .exit { code := 1, stderr := before ++ failureText what e.text }

/-- The report in the form that the options ask for. -/
def reportText (o : Options) (r : Report) : String :=
  if o.emit = .json then r.json.text else r.text

/-- The diagnostics of a report with the lines that they are about, unless the run is quiet. -/
def diagnosticsText (o : Options) (source : String) (r : Report) : String :=
  if o.quiet then "" else String.join (r.diagnostics.map fun d => d.render source ++ "\n\n")

/-- The run from a program on. -/
def planProgram (o : Options) (log source : String) (p : Program) : Plan :=
  if o.emit = .ast then o.deliver p.text log "" 0
  else
    let config := o.config
    let report := (p.check config).1
    let records := [debug s!"Check config: {config.text}", info "Checking loops..."] ++
      p.checkRecords config
    let broken : LogRecord := ⟨.error, .program, s!"{report.errors.length} malformed loop(s)"⟩
    o.deliver (o.reportText report) (log ++ o.log records ++ o.diagnosticsText source report)
      (if report.ok then "" else o.log [broken]) (if report.ok then 0 else 1)

/-- The run from a source text on. -/
def planSource (o : Options) (log source : String) : Plan :=
  let log := log ++ o.log [info "Parsing..."]
  match Program.read source with
  | .error e => .exit { code := 1, stderr := log ++ failureText "Failed to parse input" e.text }
  | .ok p => o.planProgram log source p

/-- The text of a file that was read. -/
def decoded (bytes : Except FileError ByteArray) : Except FileError String := do
  match String.fromUTF8? (← bytes) with
  | some source => return source
  | none => throw (.other "stream did not contain valid UTF-8")

def plan (o : Options) : Plan :=
  let log := o.log
    [info s!"{programName} v{version}", debug ("Input file: " ++ Text.quotedPath o.input)]
  .load o.input fun bytes =>
    match decoded bytes with
    | .error e =>
      let what := "Failed to read input file: " ++ Text.quotedPath o.input
      .exit { code := 1, stderr := log ++ failureText what e.text }
    | .ok source => o.planSource log source

end Options

/-- The run for a command line. -/
def plan (args : List String) : Plan :=
  match Options.read args with
  | .ok o => o.plan
  | .error refusal => .exit refusal.outcome

end LoopNest
