import MipsPipeline.Instruction.Decode
import MipsPipeline.Pipeline.Control

/-
The four latches between the five stages, and what an instruction carries through each of them.
Register indices are kept as numbers; an index past the last register reads as zero.
-/
namespace MipsPipeline

/-- The contents of a latch. -/
inductive Slot (α : Type) where
  /-- Nothing has come this far. -/
  | empty
  /-- A stall or a squash left nothing to do here. -/
  | bubble
  | valid (entry : α)
  deriving DecidableEq, Repr

namespace Slot

variable {α β : Type}

def entry? : Slot α → Option α
  | .valid entry => some entry
  | .empty | .bubble => none

def IsEmpty : Slot α → Prop
  | .empty => True
  | .bubble | .valid _ => False

instance (s : Slot α) : Decidable s.IsEmpty :=
  match s with
  | .empty => isTrue trivial
  | .bubble => isFalse id
  | .valid _ => isFalse id

def map (f : α → β) : Slot α → Slot β
  | .empty => .empty
  | .bubble => .bubble
  | .valid entry => .valid (f entry)

end Slot

/-- Where the value of an operand is taken from. -/
inductive ValueSource where
  | registerFile
  | memWb
  | exMem
  deriving DecidableEq, Repr

/-- The setting of the multiplexer in front of the operand. -/
def ValueSource.code : ValueSource → Nat
  | .registerFile => 0
  | .memWb => 1
  | .exMem => 2

def ValueSource.label : ValueSource → String
  | .registerFile => "register file"
  | .memWb => "MEM/WB"
  | .exMem => "EX/MEM"

/-- Between fetch and decode. -/
structure Fetched where
  pc : Word
  inst : Instruction
  deriving DecidableEq, Repr

/-- Between decode and execute. -/
structure Decoded where
  pc : Word
  inst : Instruction
  rs : Nat
  rt : Nat
  rd : Nat
  /-- The register to be written; 0 if there is none. -/
  dest : Nat
  /-- The contents of `rs`, read in decode. -/
  value1 : Word
  /-- The contents of `rt`, read in decode. -/
  value2 : Word
  imm : Word
  shamt : Word
  control : Control
  deriving DecidableEq, Repr

/-- Between execute and memory access. -/
structure Executed where
  pc : Word
  inst : Instruction
  /-- The result, or the address of a load or store. -/
  result : Word
  storeData : Word
  dest : Nat
  zero : Bool
  /-- A branch or a jump through a register has redirected the program counter. -/
  taken : Bool
  sourceA : ValueSource
  sourceB : ValueSource
  control : Control
  deriving DecidableEq, Repr

/-- Between memory access and writeback. -/
structure Accessed where
  pc : Word
  inst : Instruction
  result : Word
  /-- The loaded word; zero unless the instruction loads. -/
  loaded : Word
  /-- What goes to the destination: the loaded word or the result. -/
  writeData : Word
  dest : Nat
  control : Control
  deriving DecidableEq, Repr

structure Latches where
  ifId : Slot Fetched := .empty
  idEx : Slot Decoded := .empty
  exMem : Slot Executed := .empty
  memWb : Slot Accessed := .empty
  deriving DecidableEq, Repr

/-- No latch holds anything, not even a bubble. -/
def Latches.AllEmpty (l : Latches) : Prop :=
  l.ifId.IsEmpty ∧ l.idEx.IsEmpty ∧ l.exMem.IsEmpty ∧ l.memWb.IsEmpty

instance (l : Latches) : Decidable l.AllEmpty :=
  inferInstanceAs (Decidable (_ ∧ _ ∧ _ ∧ _))

theorem Latches.allEmpty_iff (l : Latches) : l.AllEmpty ↔ l = {} := by
  obtain ⟨a, b, c, d⟩ := l
  cases a <;> cases b <;> cases c <;> cases d <;> simp [AllEmpty, Slot.IsEmpty]

end MipsPipeline
