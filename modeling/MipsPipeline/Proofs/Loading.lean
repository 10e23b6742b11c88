import MipsPipeline.Proofs.InPlace
import MipsPipeline.Proofs.Storing

/-
Loading a program. It is refused for the first fault that there is, and then nothing has changed;
or it is installed, and then code memory holds its words from the start address on, as far as there
is room, and nothing else.
-/
namespace MipsPipeline

namespace CodeMemory

def Starts (m : CodeMemory) (start : Word) : Prop := start.Aligned ∧ start.toNat < m.bytes

/-- The fault that a program is refused for, given the words that it reads as: each kind of fault
only counts in the absence of those before it. -/
inductive Refuses (m : CodeMemory) (start : Word) (read : Except LoadError (List Word)) :
    LoadError → Prop where
  | unaligned (crooked : ¬ start.Aligned) : Refuses m start read (.unalignedStart start)
  | outside (aligned : start.Aligned) (beyond : m.bytes ≤ start.toNat) :
      Refuses m start read (.startOutOfBounds start m.bytes)
  | unreadable {cause : LoadError} (starts : m.Starts start) (fails : read = .error cause) :
      Refuses m start read cause
  | empty (starts : m.Starts start) (nothing : read = .ok []) : Refuses m start read .empty
  /-- All words in front of the one that is reported can be decoded. -/
  | undecodable {front back : List Word} {w : Word} {cause : DecodeError}
      (starts : m.Starts start) (reads : read = .ok (front ++ w :: back))
      (good : ∀ v ∈ front, ∃ i, Instruction.decode v = .ok i)
      (illegal : Instruction.decode w = .error cause) :
      Refuses m start read
        (.decode front.length (start + Word.ofIndex front.length) cause)

/-- A program without a fault, and its instructions. -/
structure Accepts (m : CodeMemory) (start : Word) (words : List Word)
    (instructions : List Instruction) : Prop where
  starts : m.Starts start
  something : words ≠ []
  decodes : List.Forall₂ (fun w i => Instruction.decode w = .ok i) words instructions

variable {m : CodeMemory} {start : Word} {read : Except LoadError (List Word)}
  {words : List Word} {instructions : List Instruction}

section Check

/-- A text and a list of words are loaded in the same way, once the text is read. -/
def loadRead (m : CodeMemory) (read : Except LoadError (List Word)) (start : Word) :
    Except LoadError (CodeMemory × LoadReport) := do
  m.checkStart start
  m.loadWords (← read) start

theorem loadText_eq (m : CodeMemory) (format : SourceFormat) (text : List Char) (start : Word) :
    m.loadText format text start = m.loadRead (format.words text start) start := rfl

theorem loadWords_eq (m : CodeMemory) (words : List Word) (start : Word) :
    m.loadWords words start = m.loadRead (.ok words) start := by
  -- The start is checked a second time, with the same outcome.
  cases checked : m.checkStart start with
  | error e =>
    rw [loadRead, loadWords, checked]
    rfl
  | ok _ =>
    rw [loadRead, checked]
    rfl

theorem checkStart_of_starts (starts : m.Starts start) : m.checkStart start = .ok () := by
  rw [checkStart, if_neg (not_not_intro starts.1), if_neg (Nat.not_le_of_lt starts.2)]

/-- A program is put into memory as far as there is room. -/
def stored (m : CodeMemory) (start : Word) (program : List (Word × Instruction)) :
    CodeMemory × LoadReport :=
  let (inside, outside) := program.partition (m.Contains ·.1)
  (m.clear.storeAll inside, ⟨inside.length, start, outside.map (·.1)⟩)

theorem loadRead_of_starts (starts : m.Starts start) (words : List Word) :
    m.loadRead (.ok words) start =
      if words = [] then .error .empty else (decodeAt start words).map (m.stored start) := by
  rw [← loadWords_eq, loadWords, checkStart_of_starts starts]
  by_cases nothing : words = []
  · subst nothing
    rfl
  · rw [if_neg nothing, if_neg nothing]
    cases decodeAt start words <;> rfl

theorem loadRead_of_refuses {e : LoadError} (refuses : m.Refuses start read e) :
    m.loadRead read start = .error e := by
  cases refuses with
  | unaligned crooked =>
    rw [loadRead, checkStart, if_pos crooked]
    rfl
  | outside aligned beyond =>
    rw [loadRead, checkStart, if_neg (not_not_intro aligned), if_pos beyond]
    rfl
  | unreadable starts fails =>
    rw [loadRead, checkStart_of_starts starts, fails]
    rfl
  | empty starts nothing => rw [nothing, loadRead_of_starts starts, if_pos rfl]
  | undecodable starts reads good illegal =>
    rw [reads, loadRead_of_starts starts, if_neg (by simp),
      decodeAt_eq_error_iff.mpr ⟨_, _, _, _, rfl, good, illegal, rfl⟩]
    rfl

theorem loadRead_of_accepts (accepts : m.Accepts start words instructions) :
    m.loadRead (.ok words) start = .ok (m.stored start (row start 0 instructions)) := by
  rw [loadRead_of_starts accepts.starts, if_neg accepts.something,
    decodeAt_eq_ok_iff.mpr ⟨_, accepts.decodes, rfl⟩]
  rfl

theorem refuses_or_accepts (m : CodeMemory) (start : Word)
    (read : Except LoadError (List Word)) :
    (∃ e, m.Refuses start read e) ∨
      ∃ words instructions, read = .ok words ∧ m.Accepts start words instructions := by
  -- In the order of the checks, so that each of them counts on those before it.
  by_cases aligned : start.Aligned
  swap
  · exact .inl ⟨_, .unaligned aligned⟩
  rcases Nat.lt_or_ge start.toNat m.bytes with below | beyond
  swap
  · exact .inl ⟨_, .outside aligned beyond⟩
  have starts : m.Starts start := ⟨aligned, below⟩
  cases read with
  | error cause => exact .inl ⟨cause, .unreadable starts rfl⟩
  | ok words =>
    by_cases nothing : words = []
    · exact .inl ⟨_, .empty starts (congrArg _ nothing)⟩
    · cases decoded : decodeAt start words with
      | error e =>
        obtain ⟨front, w, back, cause, rfl, good, illegal, -⟩ := decodeAt_eq_error_iff.mp decoded
        exact .inl ⟨_, .undecodable starts rfl good illegal⟩
      | ok program =>
        obtain ⟨instructions, decodes, -⟩ := decodeAt_eq_ok_iff.mp decoded
        exact .inr ⟨words, instructions, rfl, starts, nothing, decodes⟩

theorem not_refuses_of_accepts (accepts : m.Accepts start words instructions) (e : LoadError) :
    ¬ m.Refuses start (.ok words) e := by
  intro refuses
  have fails := loadRead_of_refuses refuses
  rw [loadRead_of_accepts accepts] at fails
  contradiction

end Check

/-- Memory that holds the words of a program from an address on, and nothing else. -/
structure Holds (m : CodeMemory) (start : Word) (words : List Word) : Prop where
  slots : m.slots.toList = List.replicate start.index none
    ++ words.map (fun w => (Instruction.decode w).toOption)
    ++ List.replicate (m.size - (start.index + words.length)) none
  fetched : ∀ address i, m.fetch address = some i ↔ ∃ k w, words[k]? = some w ∧
    Instruction.decode w = .ok i ∧ address.toNat = start.toNat + 4 * k

section Store

theorem Accepts.legal (accepts : m.Accepts start words instructions) :
    ∀ w ∈ words, ∃ i, Instruction.decode w = .ok i := by
  intro w member
  obtain ⟨k, inside, rfl⟩ := List.getElem_of_mem member
  exact ⟨_, accepts.decodes.get inside (accepts.decodes.length_eq ▸ inside)⟩

theorem Starts.index_lt (starts : m.Starts start) : start.index < m.size := by
  obtain ⟨-, below⟩ := starts
  have most := Nat.mod_le m.size Word.limit
  simp only [bytes, memoryBytes, Word.bytes, Word.index] at below ⊢
  omega

section Decoded

variable (decodes : List.Forall₂ (fun w i => Instruction.decode w = .ok i) words instructions)
include decodes

theorem map_decode :
    words.map (fun w => (Instruction.decode w).toOption) = instructions.map some := by
  induction decodes with
  | nil => rfl
  | cons word _ ih =>
    rw [List.map_cons, List.map_cons, ih, word]
    rfl

theorem getElem?_decoded {k : Nat} {i : Instruction} : instructions[k]? = some i ↔
    ∃ w, words[k]? = some w ∧ Instruction.decode w = .ok i := by
  induction decodes generalizing k with
  | nil => simp
  | cons word _ ih =>
    cases k with
    | zero => simp [word]
    | succ k => simpa using ih

theorem holds_storeAll (aligned : start.Aligned)
    (inside : start.index + words.length ≤ m.size)
    (fits : start.toNat + Word.bytes * words.length ≤ Word.limit) :
    (m.clear.storeAll (row start 0 instructions)).Holds start words := by
  have length := decodes.length_eq
  have slots : (m.clear.storeAll (row start 0 instructions)).slots.toList =
      List.replicate start.index none ++ instructions.map some
        ++ List.replicate (m.size - (start.index + words.length)) none := by
    rw [toList_slots_storeAll aligned m.clear 0 instructions (by rw [size_clear]; omega)
      (by rwa [Nat.zero_add, ← length]), toList_slots_clear, replaced, List.take_replicate,
      List.drop_replicate, Nat.min_eq_left (by omega), List.length_map, length, Nat.add_zero]
  constructor
  · rw [slots, map_decode decodes, size_storeAll, size_clear]
  · intro address i
    rw [fetch_eq_some_iff slots, getElem?_decoded decodes]
    constructor
    · rintro ⟨aligned', le, w, word, decoded⟩
      refine ⟨_, w, word, decoded, ?_⟩
      rw [Word.toNat_of_aligned aligned, Word.toNat_of_aligned aligned', Word.bytes]
      omega
    · rintro ⟨k, w, word, decoded, counted⟩
      simp only [Word.Aligned, Word.index, Word.bytes] at aligned ⊢
      have index : address.toNat / 4 - start.toNat / 4 = k := by omega
      rw [index]
      exact ⟨by omega, by omega, w, word, decoded⟩

end Decoded

theorem Holds.isSome_fetch (holds : m.Holds start words)
    (decodes : ∀ w ∈ words, ∃ i, Instruction.decode w = .ok i) (address : Word) :
    (m.fetch address).isSome ↔ ∃ k < words.length, address.toNat = start.toNat + 4 * k := by
  simp only [Option.isSome_iff_exists, holds.fetched]
  constructor
  · rintro ⟨i, k, w, word, -, counted⟩
    obtain ⟨inside, -⟩ := List.getElem?_eq_some_iff.mp word
    exact ⟨k, inside, counted⟩
  · rintro ⟨k, inside, counted⟩
    obtain ⟨i, decoded⟩ := decodes _ (List.getElem_mem inside)
    exact ⟨i, k, _, List.getElem?_eq_getElem inside, decoded, counted⟩

theorem stored_of_accepts (accepts : m.Accepts start words instructions)
    (fits : start.toNat + Word.bytes * words.length ≤ Word.limit) :
    m.stored start (row start 0 instructions) =
      (m.clear.storeAll (row start 0 (instructions.take (m.size - start.index))),
        ⟨min words.length (m.size - start.index), start,
          (List.range' (m.size - start.index) (words.length - (m.size - start.index))).map
            (start + Word.ofIndex ·)⟩) := by
  have length := accepts.decodes.length_eq
  rw [stored, partition_row accepts.starts.1 (by rwa [← length])]
  simp only [take_row, length_row, List.length_take, map_fst_drop_row, Nat.zero_add, ← length,
    Nat.min_comm words.length]

theorem holds_stored (accepts : m.Accepts start words instructions)
    (fits : start.toNat + Word.bytes * words.length ≤ Word.limit) :
    (m.stored start (row start 0 instructions)).1.Holds start
      (words.take (min words.length (m.size - start.index))) := by
  rw [stored_of_accepts accepts fits, ← List.take_take,
    List.take_of_length_le (List.length_take_le' ..)]
  have room := accepts.starts.index_lt
  refine holds_storeAll (List.forall₂_take _ accepts.decodes) accepts.starts.1 ?_ ?_
  · rw [List.length_take]
    omega
  · rw [Word.bytes] at fits
    rw [List.length_take, Word.bytes]
    omega

end Store

end CodeMemory

/-- There is a warning for each word beyond the room that there is. -/
theorem LoadReport.warnings_eq {start : Word} {length room : Nat} (loaded : Nat)
    (fits : start.toNat + 4 * length ≤ Word.limit) :
    warnings ⟨loaded, start, (List.range' room (length - room)).map (start + Word.ofIndex ·)⟩ =
      (List.range' (min length room) (length - min length room)).map fun k =>
        "Skipping out-of-bounds instruction at address " ++ toString (start.toNat + 4 * k) := by
  have beyond : List.range' (min length room) (length - min length room) =
      List.range' room (length - room) := by
    rcases Nat.le_total room length with le | ge
    · rw [Nat.min_eq_right le]
    · rw [Nat.min_eq_left ge, Nat.sub_self, Nat.sub_eq_zero_of_le ge]
      rfl
  rw [beyond, warnings, List.map_map]
  refine List.map_congr_left fun k member => ?_
  obtain ⟨above, below⟩ := List.mem_range'_1.mp member
  rw [Function.comp_apply, Word.toNat_add_ofIndex (by rw [Word.bytes]; omega), Word.bytes]

namespace Simulator

/-- What a program that is not refused makes of a simulator, and what is reported. -/
structure Installed (s : Simulator) (words : List Word) (start : Word) (t : Simulator)
    (report : LoadReport) : Prop where
  decodes : ∀ w ∈ words, ∃ i, Instruction.decode w = .ok i
  loaded : report.loaded = min words.length (s.machine.code.size - start.index)
  positive : 1 ≤ report.loaded
  size : t.machine.code.size = s.machine.code.size
  holds : t.machine.code.Holds start (words.take report.loaded)
  first : report.start = start
  last : report.last.toNat = start.toNat + 4 * (report.loaded - 1)
  /-- The last address is the highest one at which there is an instruction. -/
  highest : (t.machine.code.fetch report.last).isSome ∧
    ∀ address, (t.machine.code.fetch address).isSome → address.toNat ≤ report.last.toNat
  /-- One warning for each word that is left, in order. -/
  warnings : report.warnings =
    (List.range' report.loaded (words.length - report.loaded)).map fun k =>
      "Skipping out-of-bounds instruction at address " ++ toString (start.toNat + 4 * k)
  /-- Besides code memory, the program counter and the latches everything is as before. -/
  kept : t = { s with
    machine := { s.machine with code := t.machine.code, pc := start }
    latches := {} }
  empty : t.latches.AllEmpty
  live : ¬ t.IsDrained

variable {s : Simulator} {start : Word} {words : List Word} {instructions : List Instruction}

theorem installed_of_accepts (accepts : s.machine.code.Accepts start words instructions)
    (fits : start.toNat + 4 * words.length ≤ Word.limit) :
    s.Installed words start
      (s.restart (s.machine.install (s.machine.code.stored start
        (CodeMemory.row start 0 instructions)))).1
      (s.machine.code.stored start (CodeMemory.row start 0 instructions)).2 := by
  have holds := CodeMemory.holds_stored accepts fits
  have room := accepts.starts.index_lt
  have length := List.length_pos_iff.mpr accepts.something
  have present (address : Word) :=
    holds.isSome_fetch (fun w member => accepts.legal w (List.mem_of_mem_take member)) address
  rw [List.length_take, Nat.min_assoc] at present
  rw [CodeMemory.stored_of_accepts accepts fits] at holds present ⊢
  generalize counted : s.machine.code.size - start.index = n at holds present ⊢
  have last : (start + Word.ofIndex (min words.length n - 1)).toNat =
      start.toNat + 4 * (min words.length n - 1) := by
    refine Word.toNat_add_ofIndex ?_
    rw [Word.bytes]
    omega
  have top := (present _).mpr ⟨min words.length n - 1, by omega, last⟩
  have bottom := (present start).mpr ⟨0, by omega, rfl⟩
  exact {
    decodes := accepts.legal
    loaded := congrArg (min words.length) counted.symm
    positive := Nat.le_min.mpr (by omega)
    size := (CodeMemory.size_storeAll ..).trans (CodeMemory.size_clear ..)
    holds := holds
    first := rfl
    last := last
    highest := by
      refine ⟨top, fun address found => ?_⟩
      obtain ⟨k, inside, here⟩ := (present address).mp found
      rw [LoadReport.last, last, here]
      omega
    warnings := LoadReport.warnings_eq _ fits
    kept := rfl
    empty := (Latches.allEmpty_iff _).mpr rfl
    live := fun drained => absurd drained.2 (Option.isSome_iff_ne_none.mp bottom) }

/-- What becomes of a simulator that is asked to load a program, and the answer. -/
inductive Loads (s : Simulator) (start : Word) (read : Except LoadError (List Word)) :
    EStateM.Result LoadError Simulator LoadReport → Prop where
  | refused {e : LoadError} (fault : s.machine.code.Refuses start read e) :
      Loads s start read (.error e s)
  | installed {words : List Word} {t : Simulator} {report : LoadReport}
      (reads : read = .ok words) (faultless : ∀ e, ¬ s.machine.code.Refuses start read e)
      (fits : start.toNat + 4 * words.length ≤ Word.limit → s.Installed words start t report) :
      Loads s start read (.ok report t)

theorem loads_of_loadRead (s : Simulator) (start : Word)
    (read : Except LoadError (List Word)) :
    s.Loads start read (committed s
      (((s.machine.code.loadRead read start).map s.machine.install).map s.restart)) := by
  rcases s.machine.code.refuses_or_accepts start read with ⟨e, refuses⟩ |
    ⟨words, instructions, rfl, accepts⟩
  · rw [CodeMemory.loadRead_of_refuses refuses]
    exact .refused refuses
  · rw [CodeMemory.loadRead_of_accepts accepts]
    exact .installed rfl (CodeMemory.not_refuses_of_accepts accepts) (installed_of_accepts accepts)

/-- A load that changes the simulator piece by piece, as one that puts the finished machine in its
place, is all or nothing: for the first fault that there is it is refused and everything is as
before, and without a fault the program is installed as far as there is room. -/
theorem load_all_or_nothing (s : Simulator) (start : Word) :
    (∀ format text, s.Loads start (format.words text start)
        ((loadInPlace format text start).run s) ∧
      (loadInPlace format text start).run s = committed s (s.load format text start)) ∧
    ∀ words, s.Loads start (.ok words) ((loadWordsInPlace words start).run s) ∧
      (loadWordsInPlace words start).run s = committed s (s.loadWords words start) := by
  constructor
  · intro format text
    have same := run_loadInPlace format text start s
    refine ⟨?_, same⟩
    rw [same, load, Machine.loadText, CodeMemory.loadText_eq]
    exact s.loads_of_loadRead start _
  · intro words
    have same := run_loadWordsInPlace words start s
    refine ⟨?_, same⟩
    rw [same, loadWords, Machine.loadWords, CodeMemory.loadWords_eq]
    exact s.loads_of_loadRead start _

/-- Code memory ends behind the second word from address 64. -/
def roomForTwo : Simulator := ofSettings { codeWords := 18, dataWords := 4 }

def listingOfThree : List Char := "20080003\n2108FFFF\n1500FFFE".toList

/-- The third word is left out with a warning; a program whose second word encodes nothing is
refused as a whole. -/
theorem load_all_or_nothing_roomForTwo :
    (∃ t report, (loadInPlace .auto listingOfThree 0x40).run roomForTwo = .ok report t ∧
      roomForTwo.Installed [0x20080003, 0x2108FFFF, 0x1500FFFE] 0x40 t report ∧
      report.loaded = 2 ∧
      report.warnings = ["Skipping out-of-bounds instruction at address 72"]) ∧
    (loadWordsInPlace [0x20080003, 0xFC000000] 0x40).run roomForTwo =
      .error (.decode 1 0x44 (.unknownOpcode 0xFC000000 0x3F)) roomForTwo := by
  obtain ⟨texts, lists⟩ := load_all_or_nothing roomForTwo 0x40
  constructor
  · have reads : SourceFormat.auto.words listingOfThree 0x40 =
        .ok [0x20080003, 0x2108FFFF, 0x1500FFFE] := by decide +kernel
    have stores : (match (loadInPlace .auto listingOfThree 0x40).run roomForTwo with
      | .ok report _ => report.loaded
      | .error _ _ => 0) = 2 := by decide +kernel
    have loads := (texts .auto listingOfThree).1
    generalize (loadInPlace .auto listingOfThree 0x40).run roomForTwo = result at loads stores ⊢
    cases loads with
    | refused => contradiction
    | @installed words t report reads' faultless fits =>
      obtain rfl := Except.ok.inj (reads.symm.trans reads')
      have installed := fits (by decide)
      have two : report.loaded = 2 := stores
      refine ⟨t, report, rfl, installed, two, ?_⟩
      rw [installed.warnings, two]
      decide
  · rw [(lists _).2]
    rfl

end Simulator

end MipsPipeline
