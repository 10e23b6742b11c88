import MipsPipeline.Proofs.Loading
import MipsPipeline.Proofs.Renewal

/-
Addresses and sizes of the memories. As long as there are no more words than the settings allow,
all the ways in which a bound is written down agree: the size in bytes, the addresses in a listing,
the test of an address, and the test of the start address of a program.
-/
namespace MipsPipeline

section Sizes

variable {cells : Nat}

/-- Neither is the count cut nor does the product reach its limit. -/
theorem memoryBytes_of_sized (sized : Settings.Sized cells) : memoryBytes cells = 4 * cells := by
  obtain ⟨-, most⟩ := sized
  simp only [Settings.maxWords, Word.limit, UInt32.size, Word.bytes] at most
  simp only [memoryBytes, Word.limit, UInt32.size, Word.bytes]
  omega

theorem Settings.Sized.four_mul_lt (sized : Sized cells) {n : Nat} (inside : n < cells) :
    4 * n < 4294967296 := by
  obtain ⟨-, most⟩ := sized
  simp only [maxWords, Word.limit, UInt32.size, Word.bytes] at most
  omega

theorem Word.toNat_ofIndex {n : Nat} (fits : 4 * n < 4294967296) : (ofIndex n).toNat = 4 * n := by
  rw [ofIndex_eq, BitVec.toNat_ofNat, bytes]
  omega

theorem Word.index_lt_iff (address : Word) (cells : Nat) :
    address.index < cells ↔ address.toNat < 4 * cells := by
  rw [index, bytes]
  omega

end Sizes

/-- Listed addresses against counted ones. -/
structure Word.Listed {α : Type} (listed : List (Word × α)) (counted : List (Nat × α))
    (bytes : Nat) : Prop where
  /-- What was counted in words is what would be counted without bounds. -/
  agrees : listed.map (fun p => (p.1.toNat, p.2)) = counted
  below : ∀ p ∈ listed, p.1.toNat < bytes
  increasing : (listed.map (·.1.toNat)).Pairwise (· < ·)

namespace Word

section Listing

variable {α β : Type} (f : α → Option β) {xs : List α}

/-- The cells that have something to show, each with its address. -/
def listing (xs : List α) : List (Word × β) :=
  xs.zipIdx.filterMap fun (x, n) => (f x).map (ofIndex n, ·)

/-- The same with addresses that have no bounds. -/
def counting (xs : List α) : List (Nat × β) :=
  xs.zipIdx.filterMap fun (x, n) => (f x).map (4 * n, ·)

theorem pairwise_snd_lt_zipIdx (xs : List α) : xs.zipIdx.Pairwise (fun p q => p.2 < q.2) := by
  apply List.pairwise_map.mp
  rw [List.zipIdx_map_snd]
  exact List.pairwise_lt_range'

theorem increasing_counting (xs : List α) :
    ((counting f xs).map (·.1)).Pairwise (· < ·) := by
  rw [List.pairwise_map]
  refine (pairwise_snd_lt_zipIdx xs).filterMap _ ?_
  rintro ⟨x, n⟩ ⟨y, k⟩ before p shown q shown'
  obtain ⟨-, -, rfl⟩ := Option.map_eq_some_iff.mp shown
  obtain ⟨-, -, rfl⟩ := Option.map_eq_some_iff.mp shown'
  exact Nat.mul_lt_mul_of_pos_left before (by decide)

theorem map_toNat_listing (sized : Settings.Sized xs.length) :
    (listing f xs).map (fun p => (p.1.toNat, p.2)) = counting f xs := by
  rw [listing, List.map_filterMap]
  refine List.filterMap_congr fun ⟨x, n⟩ cell => ?_
  have fits := sized.four_mul_lt (List.snd_lt_of_mem_zipIdx cell)
  rw [Option.map_map]
  exact congrArg (Option.map · (f x)) (funext fun y => Prod.ext (toNat_ofIndex fits) rfl)

theorem listed_listing (sized : Settings.Sized xs.length) :
    Listed (listing f xs) (counting f xs) (4 * xs.length) where
  agrees := map_toNat_listing f sized
  below := by
    intro p member
    obtain ⟨⟨x, n⟩, cell, shown⟩ := List.mem_filterMap.mp member
    obtain ⟨y, -, rfl⟩ := Option.map_eq_some_iff.mp shown
    have inside : n < xs.length := List.snd_lt_of_mem_zipIdx cell
    have same : (ofIndex n).toNat = 4 * n := toNat_ofIndex (sized.four_mul_lt inside)
    dsimp only
    omega
  increasing := by
    have counted := increasing_counting f xs
    rwa [← map_toNat_listing f sized, List.map_map] at counted

/-- A listing has the aligned addresses of the cells that show something, and no others. -/
theorem mem_listing (sized : Settings.Sized xs.length) {address : Word} {y : β} :
    (address, y) ∈ listing f xs ↔
      address.Aligned ∧ ∃ x, xs[address.index]? = some x ∧ f x = some y := by
  constructor
  · intro member
    obtain ⟨⟨x, n⟩, cell, shown⟩ := List.mem_filterMap.mp member
    obtain ⟨y', shows, same⟩ := Option.map_eq_some_iff.mp shown
    obtain ⟨rfl, rfl⟩ := Prod.mk.inj same
    have counted : (ofIndex n).toNat = 4 * n :=
      toNat_ofIndex (sized.four_mul_lt (List.snd_lt_of_mem_zipIdx cell))
    have index : (ofIndex n).index = n := by rw [Word.index, counted, bytes]; omega
    refine ⟨?_, x, ?_, shows⟩
    · rw [Aligned, counted, bytes]
      omega
    · rw [index]
      exact List.mem_zipIdx_iff_getElem?.mp cell
  · rintro ⟨aligned, x, here, shows⟩
    obtain ⟨inside, -⟩ := List.getElem?_eq_some_iff.mp here
    have same : ofIndex address.index = address := BitVec.eq_of_toNat_eq
      ((toNat_ofIndex (sized.four_mul_lt inside)).trans (toNat_of_aligned aligned).symm)
    refine List.mem_filterMap.mpr
      ⟨(x, address.index), List.mem_zipIdx_iff_getElem?.mpr here, ?_⟩
    simp [shows, same]

end Listing

end Word

namespace CodeMemory

/-- Stores an instruction if there is a slot for it. -/
def store? (m : CodeMemory) (address : Word) (i : Instruction) : Option CodeMemory :=
  if ¬ address.Aligned then none
  else if inside : address.index < m.slots.size then
    some ⟨m.slots.set address.index (some i) inside⟩
  else none

/-- The ways in which the addresses of a code memory are written down agree. -/
structure Addressed (m : CodeMemory) : Prop where
  bytes : m.bytes = 4 * m.size
  listed : Word.Listed m.loaded (Word.counting id m.slots.toList) m.bytes
  complete : ∀ address i, (address, i) ∈ m.loaded ↔ m.fetch address = some i
  contains : ∀ address, m.Contains address ↔ address.toNat % 4 = 0 ∧ address.toNat < m.bytes
  stores : ∀ address i, ((m.store? address i).isSome ↔ m.Contains address) ∧
    m.store address i = (m.store? address i).getD m
  fetches : ∀ address, (m.fetch address).isSome → m.Contains address

variable {m : CodeMemory}

theorem loaded_eq (m : CodeMemory) : m.loaded = Word.listing id m.slots.toList := rfl

theorem store?_eq (m : CodeMemory) (address : Word) (i : Instruction) :
    m.store? address i = if m.Contains address then some (m.store address i) else none := by
  unfold store?
  by_cases aligned : address.Aligned
  swap
  · rw [if_pos aligned, if_neg fun contained => aligned contained.1]
  rw [if_neg (not_not_intro aligned)]
  by_cases inside : address.index < m.slots.size
  · have contained : m.Contains address := ⟨aligned, inside⟩
    rw [dif_pos inside, if_pos contained, store, if_pos contained,
      Array.setIfInBounds_def, dif_pos inside]
  · rw [dif_neg inside, if_neg fun contained => inside contained.2]

theorem addressed (sized : Settings.Sized m.size) : m.Addressed := by
  have bytes : m.bytes = 4 * m.size := memoryBytes_of_sized sized
  have sized' : Settings.Sized m.slots.toList.length := sized
  refine ⟨bytes, bytes ▸ Word.listed_listing id sized', ?_, ?_, ?_, ?_⟩
  · intro address i
    rw [loaded_eq, Word.mem_listing id sized']
    simp [fetch, Option.join_eq_some_iff]
  · intro address
    rw [Contains, address.index_lt_iff, bytes]
    rfl
  · intro address i
    rw [store?_eq]
    split
    · simpa
    · rename_i outside
      exact ⟨by simpa, if_neg outside⟩
  · intro address found
    obtain ⟨i, found⟩ := Option.isSome_iff_exists.mp found
    exact contains_of_fetch found

theorem Addressed.starts_iff (addressed : m.Addressed) (start : Word) :
    m.Starts start ↔ m.Contains start := (addressed.contains start).symm

end CodeMemory

namespace DataMemory

/-- The ways in which the addresses of a data memory are written down agree. -/
structure Addressed (m : DataMemory) : Prop where
  bytes : m.bytes = 4 * m.size
  listed : Word.Listed m.toList (Word.counting some m.cells.toList) m.bytes
  complete : ∀ address value, (address, value) ∈ m.toList ↔
    address.Aligned ∧ address.toNat < m.bytes ∧ m.load address = value
  stored : ∀ a v b, (m.store a v).load b =
    if a.toNat / 4 = b.toNat / 4 ∧ a.toNat < m.bytes then v else m.load b
  beyond : ∀ b, m.bytes ≤ b.toNat → m.load b = 0

variable {m : DataMemory}

theorem toList_eq (m : DataMemory) : m.toList = Word.listing some m.cells.toList :=
  (congrFun List.filterMap_eq_map _).symm

theorem contains_iff (sized : Settings.Sized m.size) (address : Word) :
    m.Contains address ↔ address.toNat < m.bytes := by
  rw [Contains, address.index_lt_iff, bytes, memoryBytes_of_sized sized]

theorem addressed (sized : Settings.Sized m.size) : m.Addressed := by
  have bytes : m.bytes = 4 * m.size := memoryBytes_of_sized sized
  have sized' : Settings.Sized m.cells.toList.length := sized
  refine ⟨bytes, ?_, ?_, ?_, ?_⟩
  · rw [bytes, toList_eq]
    exact Word.listed_listing some sized'
  · intro address value
    rw [toList_eq, Word.mem_listing some sized', ← contains_iff sized, Contains, load]
    by_cases inside : address.index < m.size
    · have here : address.index < m.cells.size := inside
      simp [here, inside]
    · have outside : ¬ address.index < m.cells.size := inside
      simp [outside, inside]
  · intro a v b
    rw [load_store]
    refine if_congr ?_ rfl rfl
    -- The two addresses are in one word, so that they are both inside memory or both outside.
    refine and_congr_right fun same => ?_
    rw [← contains_iff sized, Contains, Contains, same]
  · intro b beyond
    exact load_of_not_contains fun contained =>
      Nat.not_lt_of_le beyond ((contains_iff sized b).mp contained)

end DataMemory

/-- The start address of a program is to blame. -/
def LoadError.BlamesStart : LoadError → Prop
  | .unalignedStart _ | .startOutOfBounds .. => True
  | .empty | .badHex .. | .decode .. | .assembly _ => False

theorem Listing.not_blamesStart {text : List Char} {e : LoadError}
    (fails : parse text = .error e) : ¬ e.BlamesStart := by
  obtain ⟨-, ⟨line, number⟩, -, -, -, fails⟩ := mapM_eq_error_iff.mp fails
  dsimp only at fails
  split at fails
  · contradiction
  · cases fails
    exact id

theorem SourceFormat.assemble_not_blamesStart {text : List Char} {start : Word} {e : LoadError}
    (fails : assemble text start = .error e) : ¬ e.BlamesStart := by
  obtain ⟨diagnostics, -, rfl⟩ := mapError_eq_error_iff.mp fails
  exact id

theorem SourceFormat.not_blamesStart {format : SourceFormat} {text : List Char} {start : Word}
    {e : LoadError} (fails : format.words text start = .error e) : ¬ e.BlamesStart := by
  unfold words at fails
  split at fails
  · exact Listing.not_blamesStart fails
  · exact assemble_not_blamesStart fails
  · split at fails
    · exact Listing.not_blamesStart fails
    · exact assemble_not_blamesStart fails

namespace CodeMemory

variable {m : CodeMemory} {start : Word} {read : Except LoadError (List Word)} {e : LoadError}

theorem Refuses.not_blamesStart (refuses : m.Refuses start read e) (starts : m.Starts start)
    (readable : ∀ cause, read = .error cause → ¬ cause.BlamesStart) : ¬ e.BlamesStart := by
  cases refuses with
  | unaligned crooked => exact absurd starts.1 crooked
  | outside _ beyond => exact absurd starts.2 (Nat.not_lt_of_le beyond)
  | unreadable _ fails => exact readable _ fails
  | empty => exact id
  | undecodable => exact id

theorem not_blamesStart_of_loadRead (starts : m.Starts start)
    (readable : ∀ cause, read = .error cause → ¬ cause.BlamesStart)
    (fails : m.loadRead read start = .error e) : ¬ e.BlamesStart := by
  rcases m.refuses_or_accepts start read with ⟨e', refuses⟩ | ⟨words, instructions, rfl, accepts⟩
  · rw [loadRead_of_refuses refuses] at fails
    obtain rfl := Except.error.inj fails
    exact refuses.not_blamesStart starts readable
  · rw [loadRead_of_accepts accepts] at fails
    contradiction

end CodeMemory

namespace Simulator

variable {u : Settings} {s : Simulator}

/-- Programs can be loaded to the start address of the settings, whatever they are. -/
structure StartsAtDefault (s : Simulator) : Prop where
  passes : s.machine.code.checkStart s.settings.startPc = .ok ()
  texts : ∀ format text e,
    s.load format text s.settings.startPc = .error e → ¬ e.BlamesStart
  lists : ∀ words e, s.loadWords words s.settings.startPc = .error e → ¬ e.BlamesStart

theorem startsAtDefault (starts : s.machine.code.Starts s.settings.startPc) :
    s.StartsAtDefault where
  passes := CodeMemory.checkStart_of_starts starts
  texts := by
    intro format text e fails
    have code := map_eq_error_iff.mp (map_eq_error_iff.mp fails)
    rw [CodeMemory.loadText_eq] at code
    exact CodeMemory.not_blamesStart_of_loadRead starts
      (fun _ unread => SourceFormat.not_blamesStart unread) code
  lists := by
    intro words e fails
    have code := map_eq_error_iff.mp (map_eq_error_iff.mp fails)
    rw [CodeMemory.loadWords_eq] at code
    exact CodeMemory.not_blamesStart_of_loadRead starts (by simp) code

/-- With accepted settings all bounds agree in every state that calls lead to. -/
theorem addressing_consistent {calls : List Call} (accepted : u.fault? = none)
    (reached : (ofSettings u).performAll calls = s) :
    (s.machine.code.size = u.codeWords ∧ s.machine.data.size = u.dataWords) ∧
    s.machine.code.Addressed ∧ s.machine.data.Addressed ∧
    s.settings.startPc = u.startPc ∧ s.StartsAtDefault := by
  have valid := u.fault?_eq_none_iff.mp accepted
  have built : BuiltFor u s := reached ▸ (BuiltFor.ofSettings u).performAll calls
  have code : s.machine.code.Addressed :=
    CodeMemory.addressed (built.code.symm ▸ valid.code)
  have data : s.machine.data.Addressed :=
    DataMemory.addressed (built.data.symm ▸ valid.data)
  have starts : s.machine.code.Starts s.settings.startPc := by
    rw [code.starts_iff, built.settings, CodeMemory.Contains, built.code]
    exact valid.start
  exact ⟨⟨built.code, built.data⟩, code, data, congrArg _ built.settings, startsAtDefault starts⟩

/-- The largest memories that are accepted, and a start at the last word. -/
def largest : Settings where
  startPc := 0xFFFFFFF8
  codeWords := 1073741823
  dataWords := 1073741823

theorem addressing_consistent_largest :
    largest.fault? = none ∧ (ofSettings largest).machine.code.bytes = 0xFFFFFFFC ∧
      (ofSettings largest).machine.code.checkStart 0xFFFFFFF8 = .ok () ∧
      ((ofSettings largest).machine.data.store 0xFFFFFFF8 7).load 0xFFFFFFFB = 7 ∧
      ((ofSettings largest).machine.data.store 0xFFFFFFFC 7).load 0xFFFFFFFC = 0 := by
  have accepted : largest.fault? = none := by decide
  obtain ⟨⟨codeSize, dataSize⟩, code, data, -, starts⟩ :=
    @addressing_consistent largest (ofSettings largest) [] accepted rfl
  refine ⟨accepted, ?_, starts.passes, ?_, ?_⟩
  · rw [code.bytes, codeSize]
    rfl
  · rw [data.stored, if_pos]
    rw [data.bytes, dataSize]
    decide
  · rw [data.stored, if_neg, data.beyond]
    all_goals
      rw [data.bytes, dataSize]
      decide

end Simulator

end MipsPipeline
