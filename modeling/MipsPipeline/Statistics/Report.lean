import MipsPipeline.Json.Value
import MipsPipeline.Statistics.Basic
import MipsPipeline.Text.Decimal

/-
The statistics as a report of up to four sections, and as a JSON object.
-/
namespace MipsPipeline.Statistics

def doubleRule : String := "==========================================================\n"
def rule : String := "----------------------------------------------------------\n"

def counter (name : String) (n : Nat) : String :=
  "  " ++ Text.alignLeft 22 name ++ " " ++ Text.alignRight 8 (toString n)

def summary (s : Statistics) : String :=
  doubleRule ++ "MIPS PIPELINE SIMULATION STATISTICS\n" ++ doubleRule
    ++ "sim_cycles               " ++ toString s.cycles ++ "\n"
    ++ "sim_insts                " ++ toString s.retired ++ "\n"
    ++ "sim_cpi                  " ++ Text.fixed 4 s.cyclesPerInstruction ++ "\n"
    ++ rule

def mix (s : Statistics) : String :=
  let share (name : String) (n : Nat) : String :=
    counter name n ++ " (" ++ Text.alignRight 5 (Text.fixed 1 (s.percentage n)) ++ "%)\n"
  "INSTRUCTION MIX\n" ++ share "alu" s.alu ++ share "load" s.loads ++ share "store" s.stores
    ++ share "branch" s.branches ++ share "jump" s.jumpsRetired ++ rule

def controlFlow (s : Statistics) : String :=
  "CONTROL FLOW\n"
    ++ counter "branches.taken" s.branchesTaken ++ "\n"
    ++ counter "branches.not_taken" s.branchesNotTaken ++ "\n"
    ++ counter "jumps" s.jumps ++ "\n"
    ++ counter "flushed" s.flushed ++ "\n"
    ++ rule

def dataHazards (s : Statistics) : String :=
  "DATA HAZARDS\n"
    ++ counter "stalls.load_use" s.loadUseStalls ++ "\n"
    ++ counter "forwards.ex_mem" s.bypassedExMem ++ "\n"
    ++ counter "forwards.mem_wb" s.bypassedMemWb ++ "\n"
    ++ doubleRule

/-- The named sections in their fixed order; no names at all ask for every section, and a name
that is no section asks for nothing. -/
def report (s : Statistics) (names : List String := []) : String :=
  let sections := [("summary", s.summary), ("mix", s.mix), ("control", s.controlFlow),
    ("hazards", s.dataHazards)]
  String.join ((sections.filter fun (name, _) => names = [] ∨ name ∈ names).map (·.2))

def toJson (s : Statistics) : Json :=
  .record [
    ("cycles", .nat s.cycles),
    ("instructionsRetired", .nat s.retired),
    ("instAlu", .nat s.alu),
    ("instLoad", .nat s.loads),
    ("instStore", .nat s.stores),
    ("instBranch", .nat s.branches),
    ("instJump", .nat s.jumpsRetired),
    ("branchesTaken", .nat s.branchesTaken),
    ("branchesNotTaken", .nat s.branchesNotTaken),
    ("jumps", .nat s.jumps),
    ("flushed", .nat s.flushed),
    ("stallsLoadUse", .nat s.loadUseStalls),
    ("forwardsExMem", .nat s.bypassedExMem),
    ("forwardsMemWb", .nat s.bypassedMemWb)]

end MipsPipeline.Statistics
