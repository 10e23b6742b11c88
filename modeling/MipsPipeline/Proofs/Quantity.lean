import MipsPipeline.Instruction.Decode

/-
Fields and targets as numbers.
-/
namespace MipsPipeline

namespace Word

/-- The part of memory that an address is in, of 256 MiB. -/
def region (address : Word) : BitVec 4 := address.extractLsb' 28 4

theorem toNat_region (address : Word) : address.region.toNat = address.toNat / 268435456 := by
  have bounded := address.isLt
  rw [region, BitVec.extractLsb'_toNat, Nat.shiftRight_eq_div_pow]
  omega

theorem shiftLeft_two_of_toInt {offset distance : Word}
    (words : distance.toInt = 4 * offset.toInt) : offset <<< 2 = distance := by
  calc offset <<< 2 = BitVec.ofInt 32 4 * offset := (BitVec.twoPow_mul_eq_shiftLeft offset 2).symm
    _ = BitVec.ofInt 32 4 * BitVec.ofInt 32 offset.toInt := by rw [BitVec.ofInt_toInt]
    _ = BitVec.ofInt 32 distance.toInt := by rw [← BitVec.ofInt_mul, words]
    _ = distance := BitVec.ofInt_toInt

/-- The number in some bits of a number, counted from the lowest of them. -/
def field (n lowest width : Nat) : Nat := n / Nat.pow 2 lowest % Nat.pow 2 width

section Fields

variable (w : Word)

theorem toNat_lowBits_shiftRight (lowest width : Nat) :
    (lowBits width (w.toNat >>> lowest)).toNat = field w.toNat lowest width := by
  rw [lowBits_eq_ofNat, BitVec.toNat_ofNat, Nat.shiftRight_eq_div_pow]
  rfl

theorem toNat_opcode : w.opcode.toNat = field w.toNat 26 6 := w.toNat_lowBits_shiftRight 26 6
theorem toNat_rs : w.rs.toNat = field w.toNat 21 5 := w.toNat_lowBits_shiftRight 21 5
theorem toNat_rt : w.rt.toNat = field w.toNat 16 5 := w.toNat_lowBits_shiftRight 16 5
theorem toNat_rd : w.rd.toNat = field w.toNat 11 5 := w.toNat_lowBits_shiftRight 11 5
theorem toNat_shamt : w.shamt.toNat = field w.toNat 6 5 := w.toNat_lowBits_shiftRight 6 5
theorem toNat_funct : w.funct.toNat = field w.toNat 0 6 := w.toNat_lowBits_shiftRight 0 6
theorem toNat_imm : w.imm.toNat = field w.toNat 0 16 := w.toNat_lowBits_shiftRight 0 16
theorem toNat_target : w.target.toNat = field w.toNat 0 26 := w.toNat_lowBits_shiftRight 0 26

end Fields

end Word

namespace Instruction

variable (i : Instruction)

theorem toNat_shamt : i.shamt.toNat = i.raw.shamt.toNat := by
  rw [shamt, BitVec.toNat_setWidth]
  omega

theorem toInt_imm (format : i.format = .immediate) :
    i.imm.toInt = if i.op.ZeroExtends then (i.raw.imm.toNat : Int) else i.raw.imm.toInt := by
  unfold imm
  simp only [format]
  have small := i.raw.imm.isLt
  split
  · rw [BitVec.toInt_eq_toNat_of_lt, BitVec.toNat_setWidth]
    · omega
    · rw [BitVec.toNat_setWidth]
      omega
  · exact BitVec.toInt_signExtend_of_le (by decide)

theorem toNat_jumpTarget (pc : Word) :
    (i.jumpTarget pc).toNat = pc.next.region.toNat * 268435456 + 4 * i.target.toNat := by
  have small := i.target.isLt
  unfold jumpTarget Word.region
  rw [BitVec.toNat_append, BitVec.toNat_append, ← Nat.shiftLeft_add_eq_or_of_lt small,
    ← Nat.shiftLeft_add_eq_or_of_lt (by decide)]
  simp only [Nat.shiftLeft_eq, BitVec.toNat_ofNat]
  omega

end Instruction

end MipsPipeline
