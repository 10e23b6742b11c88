import MipsPipeline.Pipeline.Stage
import MipsPipeline.Sequential

/-
The datapath against the table of instructions. Control signals, arithmetic-logic unit and branch
resolution together have the effect that the table gives, as long as the operands are right where
the instruction reads them.
-/
namespace MipsPipeline

theorem shiftLeft_eq_ofNat (t : Word) (k : Nat) :
    t <<< k = BitVec.ofNat 32 (t.toNat * Nat.pow 2 k) := by
  apply BitVec.eq_of_toNat_eq
  rw [BitVec.toNat_shiftLeft, BitVec.toNat_ofNat, Nat.shiftLeft_eq, Nat.pow_eq]

theorem ushiftRight_eq_ofNat (t : Word) (k : Nat) :
    t >>> k = BitVec.ofNat 32 (t.toNat / Nat.pow 2 k) := by
  apply BitVec.eq_of_toNat_eq
  rw [BitVec.toNat_ushiftRight, BitVec.toNat_ofNat, Nat.shiftRight_eq_div_pow, Nat.pow_eq,
    Nat.mod_eq_of_lt (Nat.lt_of_le_of_lt (Nat.div_le_self _ _) t.isLt)]

theorem sshiftRight_eq_ofInt (t : Word) (k : Nat) :
    t.sshiftRight k = BitVec.ofInt 32 (t.toInt / Nat.pow 2 k) := by
  rw [BitVec.sshiftRight, Int.shiftRight_eq_div_pow, Nat.pow_eq]

namespace Instruction

theorem shamt_mod (i : Instruction) : i.shamt.toNat % 32 = i.shamt.toNat := by
  have bound := i.raw.shamt.isLt
  simp only [shamt, BitVec.truncate_eq_setWidth, BitVec.toNat_setWidth]
  omega

/-- The values `a` of `rs` and `b` of `rt` are the contents of the registers where the instruction
reads them. -/
structure Operands (i : Instruction) (registers : RegisterFile) (a b : Word) : Prop where
  first : i.sources.1 = some i.rs → a = registers.read i.rs
  second : i.sources.2 = some i.rt → b = registers.read i.rt

theorem operands_read (i : Instruction) (registers : RegisterFile) :
    i.Operands registers (registers.read i.rs) (registers.read i.rt) :=
  ⟨fun _ => rfl, fun _ => rfl⟩

/-- What decode makes of an instruction at `pc`. -/
def decoded (i : Instruction) (pc : Word) (registers : RegisterFile) : Decoded :=
  ((⟨pc, i⟩ : Fetched).decode registers).entry

theorem dest_lt (i : Instruction) : (Control.ofOp i.op).destination i < Register.count := by
  have rd := i.raw.rd.isLt
  have rt := i.raw.rt.isLt
  simp only [Control.destination, Register.link, Instruction.rd, Instruction.rt]
  split
  · decide
  · split
    · decide
    · split <;> assumption

end Instruction

namespace Decoded

def result (d : Decoded) (a b : Word) : Word := d.control.alu.apply (d.operandA a b) (d.operandB b)

/-- Where execute sends control. -/
def redirect (d : Decoded) (a b : Word) : Option Word :=
  (Resolution.resolve? d.control d.inst d.pc a b).bind Resolution.redirect?

/-- The effect that the control signals ask for. -/
def effect (d : Decoded) (data : DataMemory) (a b : Word) : Effect where
  write :=
    if d.control.regWrite then
      some (d.dest, if d.control.memToReg then data.load (d.result a b) else d.result a b)
    else none
  store := if d.control.memWrite then some (d.result a b, b) else none
  transfer := if d.control.jump then some (d.inst.jumpTarget d.pc) else d.redirect a b

end Decoded

/-- The contents of `rs` and `rt` at decode do not matter: the operands replace them. -/
theorem Instruction.effect_decoded {i : Instruction} {registers : RegisterFile} {a b : Word}
    (operands : i.Operands registers a b) (pc : Word) (stale : RegisterFile) (data : DataMemory) :
    (i.decoded pc stale).effect data a b = i.effect pc registers data := by
  obtain ⟨first, second⟩ := operands
  simp only [Instruction.sources] at first second
  unfold Instruction.effect Decoded.effect Decoded.result Decoded.redirect
  cases op : i.op <;> simp [op, Op.layout] at first second <;>
    simp [op, Instruction.decoded, Fetched.decode, Control.destination, Control.ofOp,
      Control.registerForm, Control.shiftForm, Control.immediateForm, Decoded.operandA,
      Decoded.operandB, AluOp.apply, Resolution.resolve?, Resolution.redirect?, first, second,
      Instruction.shamt_mod, shiftLeft_eq_ofNat, ushiftRight_eq_ofNat, sshiftRight_eq_ofInt,
      BitVec.slt, Word.next_eq]

end MipsPipeline
