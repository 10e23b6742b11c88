import MipsPipeline.Word

/-
Addresses of a row of words. From an address the words follow each other in steps of four, past the
last word of memory on to the first.
-/
namespace MipsPipeline.Word

theorem next_add_ofIndex (address : Word) (n : Nat) :
    (address + ofIndex n).next = address + ofIndex (n + 1) := by
  rw [next_eq, ofIndex_eq, ofIndex_eq, BitVec.add_assoc]
  congr 1
  rw [Nat.succ_mul, BitVec.ofNat_add]
  rfl

/-- Below the end of memory the addresses are those that are counted. -/
theorem toNat_add_ofIndex {address : Word} {n : Nat}
    (fits : address.toNat + bytes * n < limit) :
    (address + ofIndex n).toNat = address.toNat + bytes * n := by
  simp only [bytes, limit, UInt32.size] at fits
  simp only [ofIndex_eq, BitVec.toNat_add, BitVec.toNat_ofNat, bytes]
  omega

theorem index_add_ofIndex {address : Word} {n : Nat} (fits : address.toNat + bytes * n < limit) :
    (address + ofIndex n).index = address.index + n := by
  rw [index, toNat_add_ofIndex fits, Nat.add_mul_div_left _ _ (by decide), index]

theorem toNat_of_aligned {address : Word} (aligned : address.Aligned) :
    address.toNat = bytes * address.index :=
  (Nat.mul_div_cancel' (Nat.dvd_of_mod_eq_zero aligned)).symm

theorem add_ofIndex_zero (address : Word) : address + ofIndex 0 = address := by
  simp [ofIndex_eq]

theorem aligned_add_ofIndex (address : Word) (n : Nat) :
    (address + ofIndex n).Aligned ↔ address.Aligned := by
  simp only [Aligned, ofIndex_eq, BitVec.toNat_add, BitVec.toNat_ofNat, bytes]
  omega

theorem exists_add_ofIndex {address other : Word} (aligned : address.Aligned)
    (aligned' : other.Aligned) : ∃ n, address + ofIndex n = other := by
  refine ⟨(other - address).toNat / bytes, ?_⟩
  have whole : (other - address).toNat / bytes * bytes = (other - address).toNat := by
    apply Nat.div_mul_cancel
    apply Nat.dvd_of_mod_eq_zero
    simp only [Aligned, bytes, BitVec.toNat_sub] at aligned aligned' ⊢
    omega
  rw [ofIndex_eq, whole, BitVec.ofNat_toNat, BitVec.setWidth_eq, BitVec.add_comm,
    BitVec.sub_add_cancel]

end MipsPipeline.Word
