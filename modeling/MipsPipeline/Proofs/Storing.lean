import MipsPipeline.Program.Load
import MipsPipeline.Proofs.Address
import MipsPipeline.Proofs.Fallible

/-
A program as a row of instructions in code memory. Its words are decoded one by one, the row is cut
where memory ends, and what is stored of it takes the place of as many slots.
-/
namespace MipsPipeline.CodeMemory

/-- Instructions that follow each other, the first one `first` words behind an address. -/
def row (start : Word) (first : Nat) (instructions : List Instruction) :
    List (Word × Instruction) :=
  (instructions.zipIdx first).map fun (i, n) => (start + Word.ofIndex n, i)

section Row

theorem row_cons (start : Word) (first : Nat) (i : Instruction) (rest : List Instruction) :
    row start first (i :: rest) = (start + Word.ofIndex first, i) :: row start (first + 1) rest :=
  rfl

theorem length_row (start : Word) (first : Nat) (instructions : List Instruction) :
    (row start first instructions).length = instructions.length := by
  rw [row, List.length_map, List.length_zipIdx]

theorem getElem_row (start : Word) (first n : Nat) (instructions : List Instruction)
    (inside : n < (row start first instructions).length) :
    (row start first instructions)[n] =
      (start + Word.ofIndex (first + n), instructions.get ⟨n, length_row .. ▸ inside⟩) := by
  simp [row]

theorem take_row (start : Word) (first n : Nat) (instructions : List Instruction) :
    (row start first instructions).take n = row start first (instructions.take n) := by
  induction instructions generalizing first n with
  | nil => simp [row]
  | cons i rest ih =>
    cases n with
    | zero => rfl
    | succ n => rw [row_cons, List.take_succ_cons, List.take_succ_cons, row_cons, ih]

theorem map_fst_row (start : Word) (first : Nat) (instructions : List Instruction) :
    (row start first instructions).map (·.1) =
      (List.range' first instructions.length).map (start + Word.ofIndex ·) := by
  induction instructions generalizing first with
  | nil => rfl
  | cons i rest ih => rw [row_cons, List.map_cons, ih, List.length_cons, List.range'_succ]; rfl

theorem map_fst_drop_row (start : Word) (first n : Nat) (instructions : List Instruction) :
    ((row start first instructions).drop n).map (·.1) =
      (List.range' (first + n) (instructions.length - n)).map (start + Word.ofIndex ·) := by
  rw [List.map_drop, map_fst_row, ← List.map_drop, List.drop_range', Nat.mul_one]

/-- Where a list turns from what is wanted to what is not, it is cut in two. -/
theorem partition_of_turn {α : Type} {p : α → Bool} {xs : List α} {n : Nat}
    (turns : ∀ k (inside : k < xs.length), p xs[k] ↔ k < n) :
    xs.partition p = (xs.take n, xs.drop n) := by
  have wanted : ∀ x ∈ xs.take n, p x := by
    intro x member
    obtain ⟨k, early, rfl⟩ := List.mem_take_iff_getElem.mp member
    exact (turns k (by omega)).mpr (by omega)
  have unwanted : ∀ x ∈ xs.drop n, ¬ p x := by
    intro x member
    obtain ⟨k, late, rfl⟩ := List.mem_drop_iff_getElem.mp member
    rw [turns]
    omega
  have front : (xs.take n).filter (not ∘ p) = [] :=
    List.filter_eq_nil_iff.mpr fun x member => by simp [wanted x member]
  have back : (xs.drop n).filter (not ∘ p) = xs.drop n :=
    List.filter_eq_self.mpr fun x member => by simp [unwanted x member]
  rw [List.partition_eq_filter_filter]
  conv_lhs => rw [← List.take_append_drop n xs]
  rw [List.filter_append, List.filter_append, List.filter_eq_self.mpr wanted,
    List.filter_eq_nil_iff.mpr unwanted, front, back, List.append_nil, List.nil_append]

theorem partition_row {m : CodeMemory} {start : Word} (aligned : start.Aligned)
    {instructions : List Instruction}
    (fits : start.toNat + Word.bytes * instructions.length ≤ Word.limit) :
    (row start 0 instructions).partition (m.Contains ·.1) =
      ((row start 0 instructions).take (m.size - start.index),
        (row start 0 instructions).drop (m.size - start.index)) := by
  refine partition_of_turn fun k inside => ?_
  rw [length_row] at inside
  have here : start.toNat + Word.bytes * k < Word.limit := by
    simp only [Word.bytes] at fits ⊢
    omega
  rw [getElem_row, decide_eq_true_eq, Contains, Word.aligned_add_ofIndex, Nat.zero_add,
    Word.index_add_ofIndex here]
  constructor
  · rintro ⟨-, below⟩
    omega
  · intro below
    exact ⟨aligned, by omega⟩

end Row

section Decode

variable {start : Word} {words : List Word}

def decodeOne (start : Word) (numbered : Word × Nat) : Except LoadError (Word × Instruction) :=
  let address := start + Word.ofIndex numbered.2
  match Instruction.decode numbered.1 with
  | .ok i => .ok (address, i)
  | .error cause => .error (.decode numbered.2 address cause)

theorem decodeAt_eq (start : Word) (words : List Word) :
    decodeAt start words = words.zipIdx.mapM (decodeOne start) := rfl

theorem decodeOne_eq_ok_iff {w : Word} {n : Nat} {placed : Word × Instruction} :
    decodeOne start (w, n) = .ok placed ↔
      ∃ i, Instruction.decode w = .ok i ∧ placed = (start + Word.ofIndex n, i) := by
  cases decoded : Instruction.decode w <;> simp [decodeOne, decoded, eq_comm]

theorem decodeOne_eq_error_iff {w : Word} {n : Nat} {e : LoadError} :
    decodeOne start (w, n) = .error e ↔ ∃ cause, Instruction.decode w = .error cause ∧
      e = .decode n (start + Word.ofIndex n) cause := by
  cases decoded : Instruction.decode w <;> simp [decodeOne, decoded, eq_comm]

theorem decodeAt_eq_ok_iff {program : List (Word × Instruction)} :
    decodeAt start words = .ok program ↔ ∃ instructions,
      List.Forall₂ (fun w i => Instruction.decode w = .ok i) words instructions ∧
        program = row start 0 instructions := by
  rw [decodeAt_eq, mapM_eq_ok_iff]
  generalize 0 = first
  induction words generalizing first program with
  | nil => simp [row, List.forall₂_nil_left_iff]
  | cons w rest ih =>
    rw [List.zipIdx_cons, List.forall₂_cons_left_iff]
    simp only [ih, List.forall₂_cons_left_iff, decodeOne_eq_ok_iff]
    constructor
    · rintro ⟨_, _, ⟨i, word, rfl⟩, ⟨instructions, tail, rfl⟩, rfl⟩
      exact ⟨i :: instructions, ⟨i, instructions, word, tail, rfl⟩, rfl⟩
    · rintro ⟨_, ⟨i, instructions, word, tail, rfl⟩, rfl⟩
      exact ⟨_, _, ⟨i, word, rfl⟩, ⟨instructions, tail, rfl⟩, row_cons ..⟩

theorem decodeAt_eq_error_iff {e : LoadError} : decodeAt start words = .error e ↔
    ∃ front w back cause, words = front ++ w :: back ∧
      (∀ v ∈ front, ∃ i, Instruction.decode v = .ok i) ∧ Instruction.decode w = .error cause ∧
      e = .decode front.length (start + Word.ofIndex front.length) cause := by
  rw [decodeAt_eq, mapM_eq_error_iff]
  constructor
  · rintro ⟨_, ⟨w, n⟩, _, cut, good, bad⟩
    obtain ⟨front, rest, rfl, rfl, tail⟩ := List.zipIdx_eq_append_iff.mp cut
    obtain ⟨w, back, rfl, same, rfl⟩ := List.zipIdx_eq_cons_iff.mp tail.symm
    obtain ⟨rfl, rfl⟩ := Prod.mk.inj same
    obtain ⟨cause, illegal, rfl⟩ := decodeOne_eq_error_iff.mp bad
    refine ⟨front, w, back, cause, rfl, fun v member => ?_, illegal, by rw [Nat.zero_add]⟩
    obtain ⟨n, inside, rfl⟩ := List.getElem_of_mem member
    obtain ⟨placed, read⟩ := good _
      (List.mk_mem_zipIdx_iff_getElem?.mpr (List.getElem?_eq_getElem inside))
    obtain ⟨i, word, -⟩ := decodeOne_eq_ok_iff.mp read
    exact ⟨i, word⟩
  · rintro ⟨front, w, back, cause, rfl, good, illegal, rfl⟩
    refine ⟨front.zipIdx, (w, front.length), back.zipIdx (front.length + 1), ?_, ?_,
      decodeOne_eq_error_iff.mpr ⟨cause, illegal, rfl⟩⟩
    · rw [List.zipIdx_append, List.zipIdx_cons, Nat.zero_add]
    · rintro ⟨v, n⟩ member
      obtain ⟨i, word⟩ := good v (List.fst_mem_of_mem_zipIdx member)
      exact ⟨_, decodeOne_eq_ok_iff.mpr ⟨i, word, rfl⟩⟩

end Decode

section Store

variable {start : Word}

theorem toList_slots_clear (m : CodeMemory) : m.clear.slots.toList = List.replicate m.size none :=
  Array.toList_replicate

theorem size_storeAll (m : CodeMemory) (program : List (Word × Instruction)) :
    (m.storeAll program).size = m.size := by
  induction program generalizing m with
  | nil => rfl
  | cons placed rest ih => exact (ih _).trans (size_store ..)

/-- A list in which other members take the place of those from a position on. -/
def replaced {α : Type} (xs : List α) (position : Nat) (ys : List α) : List α :=
  xs.take position ++ ys ++ xs.drop (position + ys.length)

theorem replaced_set {α : Type} {xs : List α} {position : Nat} (inside : position < xs.length)
    (y : α) (ys : List α) :
    replaced (xs.set position y) (position + 1) ys = replaced xs position (y :: ys) := by
  have front : (xs.set position y).take (position + 1) = xs.take position ++ [y] := by
    rw [List.take_add_one, List.take_set_of_le (Nat.le_refl _), List.getElem?_set_self inside]
    rfl
  have back : (xs.set position y).drop (position + 1 + ys.length) =
      xs.drop (position + (ys.length + 1)) := by
    rw [List.drop_set_of_lt (by omega), Nat.add_assoc, Nat.add_comm 1]
  rw [replaced, replaced, front, back, List.append_assoc _ [y]]
  rfl

/-- A row takes the place of as many slots and leaves the others alone. -/
theorem toList_slots_storeAll (aligned : start.Aligned) (m : CodeMemory) (first : Nat)
    (instructions : List Instruction)
    (inside : start.index + first + instructions.length ≤ m.size)
    (fits : start.toNat + Word.bytes * (first + instructions.length) ≤ Word.limit) :
    (m.storeAll (row start first instructions)).slots.toList =
      replaced m.slots.toList (start.index + first) (instructions.map some) := by
  -- The rest of the row is counted from the same start: an address of its own it need not have,
  -- as the last word of memory is followed by the first one.
  induction instructions generalizing first m with
  | nil => simp [row, storeAll, replaced]
  | cons i rest ih =>
    rw [List.length_cons] at inside fits
    have here : start.toNat + Word.bytes * first < Word.limit := by
      simp only [Word.bytes] at fits ⊢
      omega
    have index := Word.index_add_ofIndex here
    have contains : m.Contains (start + Word.ofIndex first) :=
      ⟨(start.aligned_add_ofIndex first).mpr aligned, by omega⟩
    have stored : (m.store (start + Word.ofIndex first) i).slots.toList =
        m.slots.toList.set (start.index + first) (some i) := by
      rw [store, if_pos contains, index, Array.toList_setIfInBounds]
    have position : start.index + first < m.slots.toList.length := by
      rw [Array.length_toList]
      exact Nat.lt_of_lt_of_le (by omega) inside
    have rest_inside : start.index + (first + 1) + rest.length ≤
        (m.store (start + Word.ofIndex first) i).size := by
      rw [size_store]
      omega
    have rest_fits : start.toNat + Word.bytes * (first + 1 + rest.length) ≤ Word.limit := by
      rwa [Nat.add_assoc first, Nat.add_comm 1]
    rw [row_cons, List.map_cons, ← replaced_set position, ← stored]
    exact ih _ (first + 1) rest_inside rest_fits

/-- What a fetch finds in a memory that is empty but for a row. -/
theorem fetch_eq_some_iff {m : CodeMemory} {before after : Nat} {instructions : List Instruction}
    (slots : m.slots.toList =
      List.replicate before none ++ instructions.map some ++ List.replicate after none)
    {address : Word} {i : Instruction} : m.fetch address = some i ↔
      address.Aligned ∧ before ≤ address.index ∧
        instructions[address.index - before]? = some i := by
  rw [fetch, Option.ite_none_right_eq_some]
  refine and_congr_right fun _ => ?_
  rw [Option.join_eq_some_iff, ← Array.getElem?_toList, slots]
  rcases Nat.lt_or_ge address.index before with early | late
  · rw [List.append_assoc, List.getElem?_append_left (by simpa), List.getElem?_replicate]
    simp [early, Nat.not_le_of_lt early]
  · rw [List.append_assoc, List.getElem?_append_right (by simpa), List.length_replicate,
      List.getElem?_append, List.length_map]
    split
    · simp [late]
    · rename_i beyond
      simp [List.getElem?_replicate, List.getElem?_eq_none (Nat.le_of_not_lt beyond)]

end Store

end MipsPipeline.CodeMemory
