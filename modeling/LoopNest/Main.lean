import LoopNest.CommandLine.Plan

/-!
# The program

Carries out the plan for a command line on the files of the system.
-/

namespace LoopNest

/-- Why an operation on a file failed. -/
def FileError.ofSystem : IO.Error → FileError
  | .noFileOrDirectory _ _ _ => .notFound
  | .permissionDenied _ _ _ => .permissionDenied
  | .inappropriateType _ code _ => if code = 20 then .notADirectory else .isADirectory
  | .invalidArgument _ 36 _ => .nameTooLong
  | e => .other (toString e)

def attempt {α : Type} (action : IO α) : IO (Except FileError α) := do
  try
    return .ok (← action)
  catch e => return .error (.ofSystem e)

/-- Carries out a plan and returns its exit code. -/
def Plan.carryOut : Plan → IO UInt32
  | exit o => do
    IO.eprint o.stderr
    IO.print o.stdout
    return o.code.toUInt32
  | load name next => do
    let result ← attempt (IO.FS.readBinFile name)
    (next result).carryOut
  | store name content next => do
    let result ← attempt (IO.FS.writeFile name content)
    (next result).carryOut

end LoopNest

def main (args : List String) : IO UInt32 := (LoopNest.plan args).carryOut
