/-!
# Command lines

The arguments of the program: one file and any number of options. An option with a value has
it in the next argument, or in the same one behind `=`; short options may stand together
behind one dash, the last of them with its value. Behind `--` there are files only.

* `Options.read`: the options that a command line gives, or why the program does not run.
-/

namespace LoopNest

/-- What the program writes about a source text. -/
inductive Emit where
  | report | json | ast
deriving DecidableEq, Repr

namespace Emit

def all : List Emit := [report, json, ast]

def text : Emit → String
  | report => "report"
  | json => "json"
  | ast => "ast"

def ofText? (s : String) : Option Emit := all.find? fun e => e.text == s

end Emit

structure Options where
  input : String
  /-- The file to write to, in place of the standard output. -/
  output : Option String := none
  label : Option String := none
  batch : Bool := false
  flatIndex : String := "flat_idx"
  emit : Emit := .report
  /-- How many times more talk was asked for. -/
  verbose : Nat := 0
  quiet : Bool := false
deriving DecidableEq, Repr

/-- An option without a value. -/
inductive Switch where
  | batch | verbose | quiet | help | version
deriving DecidableEq, Repr

/-- An option with a value. -/
inductive Setting where
  | output | label | flatIndex | emit
deriving DecidableEq, Repr

def Switch.ofLong? : String → Option Switch
  | "batch" => some .batch
  | "verbose" => some .verbose
  | "quiet" => some .quiet
  | "help" => some .help
  | "version" => some .version
  | _ => none

def Switch.ofShort? : Char → Option Switch
  | 'v' => some .verbose
  | 'q' => some .quiet
  | 'h' => some .help
  | 'V' => some .version
  | _ => none

def Setting.ofLong? : String → Option Setting
  | "output" => some .output
  | "label" => some .label
  | "flat-index" => some .flatIndex
  | "emit" => some .emit
  | _ => none

def Setting.ofShort? : Char → Option Setting
  | 'o' => some .output
  | _ => none

/-- Why the program does not run. -/
inductive Refusal where
  | usage
  | help
  | version
deriving DecidableEq, Repr

/-- What the arguments so far have given. -/
structure Given where
  switches : List Switch := []
  settings : List (Setting × String) := []
  file : Option String := none
deriving Repr

namespace Given

/-- Help and version end the reading of the command line. Of the other switches only `verbose`
may be given again. -/
def flip (g : Given) : Switch → Except Refusal Given
  | .help => .error .help
  | .version => .error .version
  | s =>
    if s ≠ .verbose ∧ s ∈ g.switches then .error .usage
    else .ok { g with switches := s :: g.switches }

/-- Whether an option takes the value. The name of a file is not empty. -/
def admits : Setting → String → Bool
  | .output, value => !value.isEmpty
  | .emit, value => (Emit.ofText? value).isSome
  | _, _ => true

/-- An option with a value is given once. -/
def set (g : Given) (s : Setting) (value : String) : Except Refusal Given :=
  if (g.settings.lookup s).isSome || !admits s value then .error .usage
  else .ok { g with settings := (s, value) :: g.settings }

/-- There is one file. -/
def setFile (g : Given) (name : String) : Except Refusal Given :=
  if g.file.isSome || name.isEmpty then .error .usage else .ok { g with file := some name }

def value? (g : Given) (s : Setting) : Option String := g.settings.lookup s

/-- The options, if there is a file. -/
def options? (g : Given) : Option Options :=
  g.file.map fun input =>
    { input
      output := g.value? .output
      label := g.value? .label
      batch := g.switches.contains .batch
      flatIndex := (g.value? .flatIndex).getD "flat_idx"
      emit := ((g.value? .emit).bind Emit.ofText?).getD .report
      verbose := g.switches.count .verbose
      quiet := g.switches.contains .quiet }

end Given

/-- The parts of a long option around its first `=`. -/
def splitLong (cs : List Char) : String × Option String :=
  let name := cs.takeWhile (· != '=')
  match cs.dropWhile (· != '=') with
  | [] => (String.ofList name, none)
  | _ :: value => (String.ofList name, some (String.ofList value))

/-- Reads a long option. One whose value is to come is returned. -/
def readLong (g : Given) (cs : List Char) : Except Refusal (Given × Option Setting) :=
  let (name, value) := splitLong cs
  match Setting.ofLong? name, Switch.ofLong? name, value with
  | some s, _, some v => do return (← g.set s v, none)
  | some s, _, none => .ok (g, some s)
  | none, some s, none => do return (← g.flip s, none)
  | none, _, _ => .error .usage

/-- Reads short options behind one dash. One whose value is to come is returned. -/
def readShort (g : Given) : List Char → Except Refusal (Given × Option Setting)
  | [] => .ok (g, none)
  | c :: cs =>
    match Switch.ofShort? c, Setting.ofShort? c with
    | some s, _ => do readShort (← g.flip s) cs
    | none, some s =>
      match cs with
      | [] => .ok (g, some s)
      | '=' :: value => do return (← g.set s (String.ofList value), none)
      | value => do return (← g.set s (String.ofList value), none)
    | none, none => .error .usage

/-- Whether an argument has the form of an option, so that it is no value of the option before
it. A single dash names a file. -/
def hasOptionForm (arg : String) : Bool :=
  match arg.toList with
  | '-' :: _ :: _ => true
  | _ => false

/-- Reads an argument that is no file. One whose value is to come is returned. -/
def readOption (g : Given) (arg : String) : Except Refusal (Given × Option Setting) :=
  match arg.toList with
  | '-' :: '-' :: name => readLong g name
  | _ :: cs => readShort g cs
  | [] => .error .usage

def readFiles (g : Given) : List String → Except Refusal Given
  | [] => .ok g
  | arg :: args => do readFiles (← g.setFile arg) args

/-- Reads arguments; `pending` is an option whose value is to come. -/
def readArgs (g : Given) (pending : Option Setting) : List String → Except Refusal Given
  | [] => if pending.isSome then .error .usage else .ok g
  | arg :: args =>
    match pending with
    | some s =>
      if hasOptionForm arg then .error .usage else do readArgs (← g.set s arg) none args
    | none =>
      if arg = "--" then readFiles g args
      else if hasOptionForm arg then do
        let (g, pending) ← readOption g arg
        readArgs g pending args
      else do readArgs (← g.setFile arg) none args

/-- The options that a command line gives. -/
def Options.read (args : List String) : Except Refusal Options := do
  match (← readArgs {} none args).options? with
  | some o => return o
  | none => throw .usage

end LoopNest
