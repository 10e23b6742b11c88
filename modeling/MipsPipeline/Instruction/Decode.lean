import MipsPipeline.Instruction.Op
import MipsPipeline.Text.Numeral

/-
Decoded instructions. An instruction is an instruction word together with the operation it
encodes; its fields are read off the word, so fields that the operation does not use still show
whatever bits are there.
-/
namespace MipsPipeline

structure Instruction where
  raw : Word
  op : Op
  encoded : Op.ofWord? raw = some op
  deriving DecidableEq, Repr

/-- A word that encodes no operation, with the field that rules it out. -/
inductive DecodeError where
  | unknownOpcode (word : Word) (opcode : BitVec 6)
  | unknownFunct (word : Word) (funct : BitVec 6)
  deriving DecidableEq, Repr

def DecodeError.message : DecodeError → String
  | .unknownOpcode word opcode =>
    "unknown opcode " ++ Text.hex 2 opcode.toNat ++ " in word " ++ Text.hex 8 word.toNat
  | .unknownFunct word funct =>
    "unknown R-type function " ++ Text.hex 2 funct.toNat ++ " in word " ++ Text.hex 8 word.toNat

/-- The function code is to blame exactly when the opcode is the register-format one. -/
def DecodeError.ofWord (w : Word) : DecodeError :=
  if w.opcode = 0 then .unknownFunct w w.funct else .unknownOpcode w w.opcode

namespace Instruction

def decode (w : Word) : Except DecodeError Instruction :=
  match h : Op.ofWord? w with
  | some op => .ok ⟨w, op, h⟩
  | none => .error (DecodeError.ofWord w)

/-- The instruction word 0, which shifts register 0 by nothing into register 0. -/
def IsNop (i : Instruction) : Prop := i.raw = 0

instance (i : Instruction) : Decidable i.IsNop := inferInstanceAs (Decidable (i.raw = 0))

def format (i : Instruction) : Format := i.op.format
def opcode (i : Instruction) : Nat := i.raw.opcode.toNat
def funct (i : Instruction) : Nat := i.raw.funct.toNat
def rs (i : Instruction) : Nat := i.raw.rs.toNat
def rt (i : Instruction) : Nat := i.raw.rt.toNat
def rd (i : Instruction) : Nat := i.raw.rd.toNat
def shamt (i : Instruction) : Word := i.raw.shamt.zeroExtend 32

/-- The immediate as the operation consumes it; zero outside the immediate format. -/
def imm (i : Instruction) : Word :=
  match i.format with
  | .immediate =>
    if i.op.ZeroExtends then i.raw.imm.zeroExtend 32 else i.raw.imm.signExtend 32
  | .register | .jump => 0

/-- The jump target as a word address; zero outside the jump format. -/
def target (i : Instruction) : BitVec 26 :=
  match i.format with
  | .jump => i.raw.target
  | .register | .immediate => 0

/-- The registers read as first and as second operand. -/
def sources (i : Instruction) : Option Nat × Option Nat :=
  match i.op.layout with
  | .shift => (none, some i.rt)
  | .oneRegister | .immediate => (some i.rs, none)
  | .jump => (none, none)
  | .memory => (some i.rs, if i.op = .sw then some i.rt else none)
  | .threeRegisters | .branch => (some i.rs, some i.rt)

/-- Register 0 holds a constant, so nothing counts as reading it. -/
def Reads (i : Instruction) (register : Nat) : Prop :=
  register ≠ 0 ∧ (i.sources.1 = some register ∨ i.sources.2 = some register)

instance (i : Instruction) (register : Nat) : Decidable (i.Reads register) :=
  inferInstanceAs (Decidable (_ ∧ (_ ∨ _)))

/-- Where a taken branch at `pc` goes: `imm` words past the next instruction. -/
def branchTarget (i : Instruction) (pc : Word) : Word := pc.next + (i.imm <<< 2)

/-- Where a jump at `pc` goes: the target word in the 256 MiB region of the next instruction. -/
def jumpTarget (i : Instruction) (pc : Word) : Word :=
  pc.next.extractLsb' 28 4 ++ i.target ++ 0#2

end Instruction

end MipsPipeline
