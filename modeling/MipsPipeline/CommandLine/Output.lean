import MipsPipeline.Files.Basic
import MipsPipeline.Program.Demo
import MipsPipeline.Program.Error
import MipsPipeline.Settings.Basic
import MipsPipeline.Simulator.Trace

/-
What the commands print, and why they fail.
-/
namespace MipsPipeline

/-- Lines of text, each with its line end. -/
def unlines (lines : List String) : String :=
  lines.foldl (fun out line => out ++ line ++ "\n") ""

inductive CommandError where
  | program (file : String) (cause : FileError)
  | settingsFile (file : String) (cause : FileError)
  | settings (cause : SettingsError)
  | load (cause : LoadError)
  | unknownDemo (name : String)
  deriving DecidableEq, Repr

def CommandError.message : CommandError → String
  | .program file cause => "cannot read " ++ file ++ ": " ++ cause.message
  | .settingsFile file cause => "cannot read config " ++ file ++ ": " ++ cause.message
  | .settings cause => cause.message
  | .load cause => cause.message
  | .unknownDemo name =>
    "unknown demo '" ++ name ++ "' (available: " ++ ", ".intercalate (Demo.all.map (·.name)) ++ ")"

def TraceLine.text (line : TraceLine) : String :=
  "cycle " ++ Text.alignRight 5 (toString line.cycle)
    ++ "  pc=" ++ Text.upperHex 8 line.pc.toNat ++ "  "
    ++ " ".intercalate (line.changes.map fun (i, value) =>
      Register.name i ++ "=" ++ toString value.toInt)

namespace RegisterFile

/-- Eight registers to a row, by number. -/
def rows (f : RegisterFile) : List String :=
  let cell (i : Nat) : String :=
    "$" ++ Text.alignRight 2 (toString i) ++ "=" ++ Text.alignRight 4 (toString (f.read i).toInt)
  (List.range 4).map fun row => "  ".intercalate ((List.range 8).map fun i => cell (8 * row + i))

/-- The registers that the demos work with. -/
def results (f : RegisterFile) : List String :=
  (List.range' 8 6).map fun i =>
    "  " ++ Register.name i ++ " ($" ++ toString i ++ ") = " ++ toString (f.read i).toInt

end RegisterFile

namespace Simulator

def cycleText (s : Simulator) : List String :=
  let labels := "Registers: " :: List.replicate 3 "           "
  ["--- CYCLE " ++ toString s.cycle ++ " ---", "PC: " ++ toString s.machine.pc.toNat]
    ++ List.zipWith (· ++ ·) labels s.machine.registers.rows ++ [""]

/-- The simulator after some cycles, and a text about each of them. -/
def narrated : Nat → Simulator → Array String → Simulator × List String
  | 0, s, lines => (s, lines.toList)
  | n + 1, s, lines => narrated n s.step (lines ++ s.step.cycleText)

end Simulator

/-- A program and where its words go. -/
def disassembly (words : List Word) (base : Word) : List String :=
  words.zipIdx.map fun (w, i) =>
    String.ofList (Text.hexDigits 8 (base + Word.ofIndex i).toNat ++ ": ".toList
      ++ Text.hexDigits 8 w.toNat) ++ "  " ++ w.assembly

def versionText : String := "mipsim 0.3.0\n"

def usageText : String :=
  unlines [
    "MIPS five-stage pipeline simulator",
    "",
    "Usage: mipsim <COMMAND>",
    "",
    "Commands:",
    "  run FILE [--cycles N] [--start ADDR] [--format auto|hex|asm] [--json] [--trace]",
    "           [--config FILE]",
    "  demo NAME [--cycles N]",
    "  asm FILE [--base ADDR]",
    "  disasm FILE [--base ADDR]",
    "  help [COMMAND]"]

end MipsPipeline
