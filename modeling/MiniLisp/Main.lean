import MiniLisp.Cli

/-!
# The program

Reads the file that the command line names, if any, and prints the outcome.
-/

namespace MiniLisp
namespace Cli

/-- The fault behind a failed system call. -/
def faultOf : IO.Error → ReadFault
  | .noFileOrDirectory .. => .missing
  | .inappropriateType _ code _ =>
      if code = 21 then .isDirectory else .notDirectory
  | e => .other (toString e)

def readSource (path : String) : IO (Except ReadError String) := do
  try
    match decodeText (← IO.FS.readBinFile path) with
    | .ok text => return .ok text
    | .error fault => return .error ⟨path, fault⟩
  catch e => return .error ⟨path, faultOf e⟩

def present (outcome : Outcome) : IO UInt32 := do
  IO.print outcome.stdout
  IO.eprint outcome.stderr
  return outcome.exit

end Cli
end MiniLisp

open MiniLisp Cli in
def main (args : List String) : IO UInt32 := do
  match Cli.parse args with
  | .error misuse => present misuse.outcome
  | .ok command =>
      let source ← match command.path? with
        | some path => readSource path
        | none => pure (.ok "")
      present (command.execute ampleFuel source)
