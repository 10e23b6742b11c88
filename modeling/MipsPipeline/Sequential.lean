import MipsPipeline.Machine

/-
The instruction set as a programmer sees it: what each instruction does to the machine, one
instruction at a time, without latches, control signals or an arithmetic-logic unit. This is what
the pipeline has to look like from outside.
-/
namespace MipsPipeline

/-- What one instruction does. -/
structure Effect where
  /-- The register written and its new contents. -/
  write : Option (Nat × Word) := none
  /-- The address stored to and the stored word. -/
  store : Option (Word × Word) := none
  /-- Where control goes, unless to the next instruction. -/
  transfer : Option Word := none
  deriving DecidableEq, Repr

namespace Instruction

/-- The effect of an instruction at `pc`. Sums and differences wrap; `srl` divides the unsigned
and `sra` the signed contents, rounding down. -/
def effect (i : Instruction) (pc : Word) (registers : RegisterFile) (data : DataMemory) :
    Effect :=
  let s := registers.read i.rs
  let t := registers.read i.rt
  let factor := Nat.pow 2 i.shamt.toNat
  let address := s + i.imm
  let flag (b : Bool) : Word := if b then 1 else 0
  match i.op with
  | .add => { write := some (i.rd, s + t) }
  | .sub => { write := some (i.rd, s - t) }
  | .and => { write := some (i.rd, s &&& t) }
  | .or => { write := some (i.rd, s ||| t) }
  | .xor => { write := some (i.rd, s ^^^ t) }
  | .nor => { write := some (i.rd, ~~~(s ||| t)) }
  | .slt => { write := some (i.rd, flag (s.toInt < t.toInt)) }
  | .sll => { write := some (i.rd, BitVec.ofNat 32 (t.toNat * factor)) }
  | .srl => { write := some (i.rd, BitVec.ofNat 32 (t.toNat / factor)) }
  | .sra => { write := some (i.rd, BitVec.ofInt 32 (t.toInt / factor)) }
  | .jr => { transfer := some s }
  | .j => { transfer := some (i.jumpTarget pc) }
  | .jal => { write := some (Register.link, pc.next), transfer := some (i.jumpTarget pc) }
  | .beq => { transfer := if s = t then some (i.branchTarget pc) else none }
  | .bne => { transfer := if s ≠ t then some (i.branchTarget pc) else none }
  | .addi => { write := some (i.rt, s + i.imm) }
  | .slti => { write := some (i.rt, flag (s.toInt < i.imm.toInt)) }
  | .andi => { write := some (i.rt, s &&& i.imm) }
  | .ori => { write := some (i.rt, s ||| i.imm) }
  | .lw => { write := some (i.rt, data.load address) }
  | .sw => { store := some (address, t) }

end Instruction

namespace Machine

/-- Carries out an effect and moves on. -/
def apply (m : Machine) (e : Effect) : Machine where
  registers := match e.write with
    | some (register, value) => m.registers.write register value
    | none => m.registers
  pc := e.transfer.getD m.pc.next
  code := m.code
  data := match e.store with
    | some (address, value) => m.data.store address value
    | none => m.data

/-- One instruction; where none is loaded the machine only moves on. -/
def step (m : Machine) : Machine :=
  match m.current? with
  | some i => m.apply (i.effect m.pc m.registers m.data)
  | none => { m with pc := m.pc.next }

def steps : Nat → Machine → Machine
  | 0, m => m
  | n + 1, m => steps n m.step

end Machine

end MipsPipeline
