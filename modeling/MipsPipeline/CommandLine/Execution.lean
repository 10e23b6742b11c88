import MipsPipeline.CommandLine.Command
import MipsPipeline.CommandLine.Output
import MipsPipeline.Json.Writer
import MipsPipeline.Settings.Document
import MipsPipeline.Simulator.View

/-
Carrying out commands. All that a command takes from outside is the files.
-/
namespace MipsPipeline

/-- What a command that succeeds prints on its two streams. -/
structure Output where
  standard : String
  diagnostic : String := ""
  deriving DecidableEq, Repr

namespace RunOptions

/-- Cycles after which a program that does not drain is stopped. -/
def cycleLimit : Nat := 100000

def extent (o : RunOptions) : Extent :=
  match o.cycles with
  | some n => .cycles n
  | none => .drained cycleLimit

def settings (o : RunOptions) (files : Files) : Except CommandError Settings :=
  match o.config with
  | none => .ok {}
  | some file => do
    let text ← (files.text file).mapError (.settingsFile file)
    (Settings.parse text).mapError .settings

/-- A new simulator with the program of a file. -/
def loaded (o : RunOptions) (files : Files) (file : String) :
    Except CommandError (Simulator × LoadReport) := do
  let settings ← o.settings files
  let text ← (files.text file).mapError (.program file)
  ((Simulator.ofSettings settings).load (o.format.getD .auto) text
    (o.start.getD settings.startPc)).mapError .load

/-- The run, with the lines of its trace if one is kept. -/
def simulate (o : RunOptions) (s : Simulator) : Simulator × List TraceLine :=
  if o.trace then s.runTraced o.extent else (s.runFor o.extent, [])

def warnings (o : RunOptions) (report : LoadReport) (last : Simulator) : List String :=
  let unfinished :=
    if o.cycles = none ∧ ¬ last.IsDrained then
      ["stopped after " ++ toString cycleLimit ++ " cycles without draining"]
    else []
  (report.warnings ++ unfinished).map ("warning: " ++ ·)

def finalText (o : RunOptions) (last : Simulator) : String :=
  if o.json then last.view.toJson.indented ++ "\n"
  else "\n" ++ last.machine.registers.dump ++ "\n" ++ last.statistics.report

def execute (o : RunOptions) (files : Files) (file : String) : Except CommandError Output := do
  let (first, report) ← o.loaded files file
  let (last, trace) := o.simulate first
  pure ⟨unlines (trace.map (·.text)) ++ o.finalText last, unlines (o.warnings report last)⟩

end RunOptions

def Demo.execute (demo : Demo) (cycles : Nat) : Except CommandError Output := do
  let (first, report) ← ((Simulator.ofSettings {}).loadWords demo.words 0).mapError .load
  let (last, text) := first.narrated cycles #[]
  pure {
    standard := unlines (
      ["=== MIPS PIPELINE SIMULATOR ===",
       "Program: " ++ demo.name.toUpper ++ " (" ++ demo.description ++ ")",
       "Loaded " ++ toString report.loaded ++ " instructions",
       "Running " ++ toString cycles ++ " cycles...",
       ""]
      ++ text ++ ["=== FINAL RESULTS ===", "Final register values:"]
      ++ last.machine.registers.results) }

namespace Command

def execute (files : Files) : Command → Except CommandError Output
  | .run file options => options.execute files file
  | .demo name cycles => match Demo.find? name with
    | some found => found.execute cycles
    | none => .error (.unknownDemo name)
  | .assemble file base => do
    let text ← (files.text file).mapError (.program file)
    let words ← (SourceFormat.assembly.words text base).mapError .load
    pure { standard := Listing.print words }
  | .disassemble file base => do
    let text ← (files.text file).mapError (.program file)
    let words ← (SourceFormat.hex.words text base).mapError .load
    pure { standard := unlines (disassembly words base) }
  | .help => .ok { standard := usageText }
  | .version => .ok { standard := versionText }

end Command

inductive Exit where
  | success
  | failure
  /-- The command line is malformed. -/
  | usage
  deriving DecidableEq, Repr

def Exit.code : Exit → Nat
  | .success => 0
  | .failure => 1
  | .usage => 2

structure Outcome where
  exit : Exit
  output : Output
  deriving DecidableEq, Repr

/-- The outcome of a command line. -/
def Outcome.ofArguments (files : Files) (arguments : List String) : Outcome :=
  match Command.parse? arguments with
  | none => ⟨.usage, ⟨"", usageText⟩⟩
  | some command => match command.execute files with
    | .ok output => ⟨.success, output⟩
    | .error e => ⟨.failure, ⟨"", unlines ["error: " ++ e.message]⟩⟩

end MipsPipeline
