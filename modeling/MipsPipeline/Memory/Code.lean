import MipsPipeline.Instruction.Decode

/-
Code memory. Words are decoded when they are stored, so a fetch cannot meet an illegal encoding:
it gives the instruction of a loaded slot, and nothing anywhere else.
-/
namespace MipsPipeline

structure CodeMemory where
  slots : Array (Option Instruction)
  deriving DecidableEq, Repr

namespace CodeMemory

def unloaded (size : Nat) : CodeMemory := ⟨Array.replicate size none⟩

def size (m : CodeMemory) : Nat := m.slots.size
def bytes (m : CodeMemory) : Nat := memoryBytes m.size

/-- An instruction can be stored at an aligned address inside memory, and nowhere else. -/
def Contains (m : CodeMemory) (address : Word) : Prop :=
  address.Aligned ∧ address.index < m.size

instance (m : CodeMemory) (address : Word) : Decidable (m.Contains address) :=
  inferInstanceAs (Decidable (_ ∧ _))

def fetch (m : CodeMemory) (address : Word) : Option Instruction :=
  if address.Aligned then (m.slots[address.index]?).join else none

def store (m : CodeMemory) (address : Word) (i : Instruction) : CodeMemory :=
  if m.Contains address then ⟨m.slots.setIfInBounds address.index (some i)⟩ else m

def clear (m : CodeMemory) : CodeMemory := unloaded m.size

/-- The loaded instructions with their addresses, in order. -/
def loaded (m : CodeMemory) : List (Word × Instruction) :=
  m.slots.toList.zipIdx.filterMap fun (slot, i) => slot.map fun inst => (Word.ofIndex i, inst)

@[simp] theorem size_unloaded (n : Nat) : (unloaded n).size = n := by simp [unloaded, size]

@[simp] theorem size_store (m : CodeMemory) (address : Word) (i : Instruction) :
    (m.store address i).size = m.size := by
  unfold store
  split <;> simp [size]

@[simp] theorem size_clear (m : CodeMemory) : m.clear.size = m.size := by simp [clear]

@[simp] theorem fetch_unloaded (n : Nat) (address : Word) : (unloaded n).fetch address = none := by
  simp only [unloaded, fetch, Array.getElem?_replicate]
  split
  · split <;> rfl
  · rfl

theorem contains_of_fetch {m : CodeMemory} {address : Word} {i : Instruction}
    (h : m.fetch address = some i) : m.Contains address := by
  simp only [fetch, Option.ite_none_right_eq_some, Option.join_eq_some_iff] at h
  refine ⟨h.1, ?_⟩
  obtain ⟨inside, -⟩ := Array.getElem?_eq_some_iff.mp h.2
  exact inside

end CodeMemory

end MipsPipeline
