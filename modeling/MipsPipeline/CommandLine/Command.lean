import MipsPipeline.CommandLine.Argument
import MipsPipeline.Program.Source

/-
The commands of the command line.
-/
namespace MipsPipeline

structure RunOptions where
  /-- Number of cycles to run; without it the program runs until the pipeline has drained. -/
  cycles : Option Nat := none
  start : Option Word := none
  format : Option SourceFormat := none
  json : Bool := false
  trace : Bool := false
  config : Option String := none
  deriving DecidableEq, Repr

inductive Command where
  | run (file : String) (options : RunOptions)
  | demo (name : String) (cycles : Nat)
  | assemble (file : String) (base : Word)
  | disassemble (file : String) (base : Word)
  | help
  | version
  deriving DecidableEq, Repr

def SourceFormat.ofName? (name : List Char) : Option SourceFormat :=
  match String.ofList name with
  | "auto" => some .auto
  | "hex" => some .hex
  | "asm" => some .assembly
  | _ => none

namespace Command

/-- A file name is not empty. -/
def fileName? (text : List Char) : Option String :=
  if text = [] then none else some (String.ofList text)

def isFileName (text : String) : Bool := text ≠ ""

def runGrammar : Grammar RunOptions where
  accepts := isFileName
  setter? name := match name with
    | "cycles" => some (.valued fun o text =>
        Setter.once o.cycles (Text.count? text) ({ o with cycles := some · }))
    | "start" => some (.valued fun o text =>
        Setter.once o.start (Text.address? text) ({ o with start := some · }))
    | "format" => some (.valued fun o text =>
        Setter.once o.format (SourceFormat.ofName? text) ({ o with format := some · }))
    | "config" => some (.valued fun o text =>
        Setter.once o.config (fileName? text) ({ o with config := some · }))
    | "json" => some (.switch fun o => if o.json then none else some { o with json := true })
    | "trace" => some (.switch fun o => if o.trace then none else some { o with trace := true })
    | _ => none

/-- One option with a value and nothing else. -/
def singleGrammar (accepts : String → Bool) (option : String) (read? : List Char → Option β) :
    Grammar (Option β) where
  accepts := accepts
  setter? name :=
    if name = option then some (.valued fun current text => Setter.once current (read? text) some)
    else none

def demoGrammar : Grammar (Option Nat) := singleGrammar (fun _ => true) "cycles" Text.count?

def assemblyGrammar : Grammar (Option Word) := singleGrammar isFileName "base" Text.address?

/-- Cycles of a demo unless told otherwise. -/
def demoCycles : Nat := 12

def ofReading (command : String → α → Command) : Reading α → Command
  | .help => .help
  | .command operand options => command operand options

/-- Reads a command line; one that is malformed is no command. -/
def parse? : List String → Option Command
  | [] => none
  | "run" :: rest => (runGrammar.read? none {} rest).map (ofReading .run)
  | "demo" :: rest =>
    (demoGrammar.read? none none rest).map
      (ofReading fun name cycles => .demo name (cycles.getD demoCycles))
  | "asm" :: rest =>
    (assemblyGrammar.read? none none rest).map
      (ofReading fun file base => .assemble file (base.getD 0))
  | "disasm" :: rest =>
    (assemblyGrammar.read? none none rest).map
      (ofReading fun file base => .disassemble file (base.getD 0))
  | ["help"] => some .help
  | ["help", name] => if name ∈ ["run", "demo", "asm", "disasm", "help"] then some .help else none
  | text :: _ =>
    let argument := Argument.ofText text
    if argument.AsksHelp then some .help
    else if argument.AsksVersion then some .version
    else none

/-- The files that a command reads. -/
def files : Command → List String
  | .run file options => options.config.toList ++ [file]
  | .assemble file _ | .disassemble file _ => [file]
  | .demo .. | .help | .version => []

end Command

end MipsPipeline
