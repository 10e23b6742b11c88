import MipsPipeline.Instruction.Assembly
import MipsPipeline.Pipeline.Latch

/-
Hazards: the one that stalls, and the reports about all of them.
-/
namespace MipsPipeline

/-- The load in execute has not yet fetched what the instruction in decode reads. -/
def LoadUse (idEx : Slot Decoded) (ifId : Slot Fetched) : Prop :=
  ∃ load ∈ idEx.entry?, ∃ user ∈ ifId.entry?,
    load.control.memRead ∧ load.dest ≠ 0 ∧ user.inst.Reads load.dest

instance (idEx : Slot Decoded) (ifId : Slot Fetched) : Decidable (LoadUse idEx ifId) :=
  inferInstanceAs (Decidable (∃ load ∈ idEx.entry?, ∃ user ∈ ifId.entry?, _ ∧ _ ∧ _))

inductive HazardKind where
  /-- A value was bypassed. -/
  | data
  /-- A change of control flow squashed younger instructions. -/
  | control
  /-- The front of the pipeline waited for a load. -/
  | stall
  deriving DecidableEq, Repr

def HazardKind.label : HazardKind → String
  | .data => "data"
  | .control => "control"
  | .stall => "stall"

inductive OperandSide where
  | first
  | second
  deriving DecidableEq, Repr

def OperandSide.label : OperandSide → String
  | .first => "A"
  | .second => "B"

inductive Hazard where
  | loadUse (user : Instruction) (register : Nat) (load : Instruction)
  | bypass (source : ValueSource) (side : OperandSide) (register : Nat) (user : Instruction)
  | taken (inst : Instruction) (target : Word)
  | jump (inst : Instruction) (target : Word)
  deriving DecidableEq, Repr

namespace Hazard

def kind : Hazard → HazardKind
  | .loadUse .. => .stall
  | .bypass .. => .data
  | .taken .. | .jump .. => .control

def message : Hazard → String
  | .loadUse user register load =>
    "load-use: '" ++ user.assembly ++ "' needs " ++ Register.name register ++ " from '"
      ++ load.assembly ++ "'; stalling one cycle"
  | .bypass source side register user =>
    "forward " ++ source.label ++ " -> operand " ++ side.label ++ " ("
      ++ Register.name register ++ ") of '" ++ user.assembly ++ "'"
  | .taken inst target =>
    "'" ++ inst.assembly ++ "' taken to " ++ Text.hex 0 target.toNat ++ "; flushing IF and ID"
  | .jump inst target =>
    "'" ++ inst.assembly ++ "' jumps to " ++ Text.hex 0 target.toNat ++ "; flushing IF"

/-- The report of a stall, for the instructions that meet in execute and decode. -/
def loadUse? (idEx : Slot Decoded) (ifId : Slot Fetched) : Option Hazard := do
  let load ← idEx.entry?
  let user ← ifId.entry?
  some (.loadUse user.inst load.dest load.inst)

/-- One report for each operand that was bypassed; `rs` and `rt` are the registers. -/
def bypasses (e : Executed) (rs rt : Nat) : List Hazard :=
  [(e.sourceA, OperandSide.first, rs), (e.sourceB, OperandSide.second, rt)].filterMap
    fun (source, side, register) =>
      if source = .registerFile then none else some (.bypass source side register e.inst)

end Hazard

end MipsPipeline
