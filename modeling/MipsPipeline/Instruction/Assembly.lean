import MipsPipeline.Instruction.Decode
import MipsPipeline.Register.Name

/-
The assembly text of an instruction. Branch offsets are written in words and jump targets as byte
addresses, both as numbers; a word that encodes nothing is written as data.
-/
namespace MipsPipeline

namespace Instruction

def operands (i : Instruction) : List String :=
  match i.op.layout with
  | .threeRegisters => [Register.name i.rd, Register.name i.rs, Register.name i.rt]
  | .shift => [Register.name i.rd, Register.name i.rt, toString i.shamt.toNat]
  | .oneRegister => [Register.name i.rs]
  | .immediate => [Register.name i.rt, Register.name i.rs, toString i.imm.toInt]
  | .memory => [Register.name i.rt, toString i.imm.toInt ++ "(" ++ Register.name i.rs ++ ")"]
  | .branch => [Register.name i.rs, Register.name i.rt, toString i.imm.toInt]
  | .jump => [Text.upperHex 0 (4 * i.target.toNat)]

def assembly (i : Instruction) : String :=
  if i.IsNop then "nop" else i.op.mnemonic ++ " " ++ ", ".intercalate i.operands

end Instruction

def Word.assembly (w : Word) : String :=
  match Instruction.decode w with
  | .ok i => i.assembly
  | .error _ => ".word " ++ Text.hex 8 w.toNat

end MipsPipeline
