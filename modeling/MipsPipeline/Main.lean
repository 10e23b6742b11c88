import MipsPipeline.CommandLine.Execution

/-
The command line: reads the files that a command names and prints the outcome.
-/
namespace MipsPipeline

/-- The cause that a system's code stands for. Some operations report their codes negated. -/
def SystemError.ofSystemCode (code : UInt32) : SystemError :=
  (SystemError.ofCode? code.toInt32.toInt.natAbs).getD .unreadable

def SystemError.ofIO : IO.Error → SystemError
  | .noFileOrDirectory _ code _ => .ofSystemCode code
  | .permissionDenied _ code _ => .ofSystemCode code
  | .inappropriateType _ code _ => .ofSystemCode code
  | .invalidArgument _ code _ => .ofSystemCode code
  | _ => .unreadable

def readFile (name : String) : IO (Except FileError (List UInt8)) := do
  try
    let contents ← IO.FS.readBinFile name
    return .ok contents.toList
  catch e =>
    return .error (.system (.ofIO e))

end MipsPipeline

open MipsPipeline in
def main (arguments : List String) : IO UInt32 := do
  let names := ((Command.parse? arguments).map (·.files)).getD []
  let contents ← names.mapM fun name => do return (name, ← readFile name)
  let files : Files := fun name => (contents.lookup name).getD (.error (.system .missing))
  let outcome := Outcome.ofArguments files arguments
  IO.print outcome.output.standard
  IO.eprint outcome.output.diagnostic
  return UInt32.ofNat outcome.exit.code
