import MipsPipeline.Word

/-
Data memory. The low two bits of an address are dropped; a load outside memory gives zero and a
store outside memory changes nothing.
-/
namespace MipsPipeline

structure DataMemory where
  cells : Array Word
  deriving DecidableEq, Repr

namespace DataMemory

def zeroed (size : Nat) : DataMemory := ⟨Array.replicate size 0#32⟩

def size (m : DataMemory) : Nat := m.cells.size
def bytes (m : DataMemory) : Nat := memoryBytes m.size

def Contains (m : DataMemory) (address : Word) : Prop := address.index < m.size

instance (m : DataMemory) (address : Word) : Decidable (m.Contains address) :=
  inferInstanceAs (Decidable (_ < _))

def load (m : DataMemory) (address : Word) : Word := (m.cells[address.index]?).getD 0#32

def store (m : DataMemory) (address value : Word) : DataMemory :=
  ⟨m.cells.setIfInBounds address.index value⟩

def clear (m : DataMemory) : DataMemory := zeroed m.size

/-- All words with their addresses, in order. -/
def toList (m : DataMemory) : List (Word × Word) :=
  m.cells.toList.zipIdx.map fun (value, i) => (Word.ofIndex i, value)

/-- The words below an index that are not zero, with their addresses, in front of those found. -/
def nonzeroBelow (m : DataMemory) : Nat → List (Word × Word) → List (Word × Word)
  | 0, found => found
  | i + 1, found =>
    let value := m.cells.getD i 0#32
    m.nonzeroBelow i (if value = 0#32 then found else (Word.ofIndex i, value) :: found)

/-- The words that are not zero with their addresses, in order. -/
def nonzero (m : DataMemory) : List (Word × Word) := m.nonzeroBelow m.size []

@[simp] theorem size_zeroed (n : Nat) : (zeroed n).size = n := by simp [zeroed, size]

@[simp] theorem size_store (m : DataMemory) (address value : Word) :
    (m.store address value).size = m.size := by simp [store, size]

@[simp] theorem size_clear (m : DataMemory) : m.clear.size = m.size := by simp [clear]

@[simp] theorem load_zeroed (n : Nat) (address : Word) : (zeroed n).load address = 0#32 := by
  simp only [zeroed, load, Array.getElem?_replicate]
  split <;> rfl

theorem nonzeroBelow_eq (m : DataMemory) {n : Nat} (h : n ≤ m.size) (found : List (Word × Word)) :
    m.nonzeroBelow n found = (m.toList.take n).filter (·.2 ≠ 0#32) ++ found := by
  induction n generalizing found with
  | zero => simp [nonzeroBelow]
  | succ n ih =>
    have inside : n < m.cells.size := h
    have last : m.toList[n]? = some (Word.ofIndex n, m.cells[n]) := by simp [toList, inside]
    rw [nonzeroBelow, ih (Nat.le_of_lt inside), List.take_add_one, last]
    by_cases zero : m.cells[n] = 0#32 <;> simp [inside, zero]

theorem nonzero_eq_filter_toList (m : DataMemory) :
    m.nonzero = m.toList.filter (·.2 ≠ 0#32) := by
  have whole : m.toList.take m.size = m.toList :=
    List.take_of_length_le (by simp [toList, size])
  rw [nonzero, m.nonzeroBelow_eq (Nat.le_refl _), whole, List.append_nil]

theorem load_of_not_contains {m : DataMemory} {address : Word} (h : ¬ m.Contains address) :
    m.load address = 0#32 := by
  simp only [Contains, size, Nat.not_lt] at h
  simp [load, h]

theorem load_store (m : DataMemory) (stored value loaded : Word) :
    (m.store stored value).load loaded =
      if stored.index = loaded.index ∧ m.Contains loaded then value else m.load loaded := by
  simp only [load, store, Contains, size, Array.getElem?_setIfInBounds]
  by_cases same : stored.index = loaded.index
  · by_cases inside : loaded.index < m.cells.size <;> simp [same, inside]
  · simp [same]

end DataMemory

end MipsPipeline
