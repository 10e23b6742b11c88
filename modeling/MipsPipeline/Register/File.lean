import MipsPipeline.Register.Name
import MipsPipeline.Word

/-
The register file. Register 0 holds zero for good: a write to it, like a write to an index that
is no register, changes nothing, and an index that is no register reads as zero.
-/
namespace MipsPipeline

structure RegisterFile where
  cells : Vector Word Register.count
  zero_cell : cells[0] = 0#32
  deriving DecidableEq, Repr

namespace RegisterFile

def cleared : RegisterFile where
  cells := Vector.replicate Register.count 0#32
  zero_cell := by simp

def read (f : RegisterFile) (i : Nat) : Word := (f.cells[i]?).getD 0#32

def write (f : RegisterFile) (i : Nat) (value : Word) : RegisterFile :=
  if h : i ≠ 0 ∧ i < Register.count then
    { cells := f.cells.set i value h.2
      zero_cell := by rw [Vector.getElem_set_ne _ _ h.1]; exact f.zero_cell }
  else f

def toList (f : RegisterFile) : List Word := f.cells.toList

theorem read_of_lt (f : RegisterFile) {i : Nat} (h : i < Register.count) :
    f.read i = f.cells[i] := by simp [read, h]

theorem read_of_count_le (f : RegisterFile) {i : Nat} (h : Register.count ≤ i) :
    f.read i = 0#32 := by simp [read, Nat.not_lt.mpr h]

@[simp] theorem read_zero (f : RegisterFile) : f.read 0 = 0#32 := by
  rw [f.read_of_lt (by decide)]
  exact f.zero_cell

theorem read_write (f : RegisterFile) (i j : Nat) (value : Word) :
    (f.write i value).read j =
      if i = j ∧ j ≠ 0 ∧ j < Register.count then value else f.read j := by
  by_cases h : i ≠ 0 ∧ i < Register.count
  · by_cases same : i = j
    · subst same
      simp [write, read, h]
    · simp [write, read, h, same, Vector.getElem?_set_ne]
  · by_cases same : i = j
    · subst same
      simp [write, h]
    · simp [write, h, same]

@[simp] theorem read_cleared (i : Nat) : cleared.read i = 0#32 := by
  by_cases h : i < Register.count
  · simp [cleared, read_of_lt _ h]
  · exact read_of_count_le _ (Nat.not_lt.mp h)

@[ext] theorem ext_read {f g : RegisterFile} (same : ∀ i, f.read i = g.read i) : f = g := by
  obtain ⟨cells, zero⟩ := f
  obtain ⟨cells', zero'⟩ := g
  have : cells = cells' := by
    refine Vector.ext fun i h => ?_
    have := same i
    rwa [read_of_lt _ h, read_of_lt _ h] at this
  subst this
  rfl

/-- Four registers to a line, each with its name in front and its value in a column. -/
def dump (f : RegisterFile) : String :=
  let cell (i : Nat) : List Char :=
    (Text.alignRight 5 (Register.name i) ++ "=" ++
      Text.alignLeft 11 (toString (f.read i).toInt)).toList
  let row (r : Nat) : List Char :=
    [' '].intercalate ((List.range 4).map fun k => cell (4 * r + k))
  let line (r : Nat) : List Char := ((row r).reverse.dropWhile Text.isBlank).reverse ++ ['\n']
  String.ofList ((List.range 8).flatMap line)

end RegisterFile

end MipsPipeline
