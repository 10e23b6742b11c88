import MipsPipeline.Pipeline.Timeline
import MipsPipeline.Statistics.Basic

/-
Counting is adding. Statistics add up field by field, and counting a cycle adds to them what each of
its stages contributes, so that a fact about a counter is a fact about one stage.
-/
namespace MipsPipeline

attribute [ext] Statistics

namespace Statistics

def add (s t : Statistics) : Statistics where
  cycles := s.cycles + t.cycles
  retired := s.retired + t.retired
  alu := s.alu + t.alu
  loads := s.loads + t.loads
  stores := s.stores + t.stores
  branches := s.branches + t.branches
  jumpsRetired := s.jumpsRetired + t.jumpsRetired
  branchesTaken := s.branchesTaken + t.branchesTaken
  branchesNotTaken := s.branchesNotTaken + t.branchesNotTaken
  jumps := s.jumps + t.jumps
  flushed := s.flushed + t.flushed
  loadUseStalls := s.loadUseStalls + t.loadUseStalls
  bypassedExMem := s.bypassedExMem + t.bypassedExMem
  bypassedMemWb := s.bypassedMemWb + t.bypassedMemWb

instance : Add Statistics := ⟨add⟩

theorem add_eq (s t : Statistics) : s + t = s.add t := rfl

theorem add_assoc (s t u : Statistics) : s + t + u = s + (t + u) := by
  ext <;> exact Nat.add_assoc _ _ _

/-- The counts of what leaves writeback. -/
def ofWriteback (w : Option Accessed) : Statistics where
  retired := if w.isSome then 1 else 0
  alu := if ∃ a ∈ w, a.inst.op.category = .alu then 1 else 0
  loads := if ∃ a ∈ w, a.inst.op.category = .load then 1 else 0
  stores := if ∃ a ∈ w, a.inst.op.category = .store then 1 else 0
  branches := if ∃ a ∈ w, a.inst.op.category = .branch then 1 else 0
  jumpsRetired := if ∃ a ∈ w, a.inst.op.category = .jump then 1 else 0

/-- The counts of what leaves execute. -/
def ofExecute (x : Option Executed) : Statistics where
  branchesTaken := if ∃ e ∈ x, e.control.branch ∧ e.taken then 1 else 0
  branchesNotTaken := if ∃ e ∈ x, e.control.branch ∧ ¬ e.taken then 1 else 0
  bypassedExMem := (x.toList.flatMap fun e => [e.sourceA, e.sourceB]).count .exMem
  bypassedMemWb := (x.toList.flatMap fun e => [e.sourceA, e.sourceB]).count .memWb

def ofDecode (a : Activity Decoding) : Statistics where
  jumps := if a.jump?.isSome then 1 else 0
  flushed := if a.state = .flush then 1 else 0

def ofFetch (a : Activity Fetched) : Statistics where
  flushed := if a.state = .flush then 1 else 0

theorem retire_eq_add (s : Statistics) (a : Accessed) :
    s.retire a.inst.op = s + ofWriteback (some a) := by
  unfold retire ofWriteback
  cases category : a.inst.op.category <;> simp [category] <;> rfl

theorem countSource_eq_add (s : Statistics) (first second : ValueSource) :
    (s.countSource first).countSource second =
      s + { bypassedExMem := [first, second].count .exMem
            bypassedMemWb := [first, second].count .memWb } := by
  cases first <;> cases second <;> rfl

theorem countExecuted_eq_add (s : Statistics) (e : Executed) :
    s.countExecuted e = s + ofExecute (some e) := by
  unfold countExecuted ofExecute
  rw [countSource_eq_add]
  by_cases branch : e.control.branch = true
  · by_cases taken : e.taken = true
    · simp [branch, taken]
      rfl
    · simp [branch, taken]
      rfl
  · simp [branch]

theorem countDecoded_eq_add (s : Statistics) (a : Activity Decoding) :
    s.countDecoded a = s + ofDecode a := by
  cases a with
  | active d =>
    by_cases jump : d.jump.isSome = true
    · simp [countDecoded, ofDecode, Activity.jump?, Activity.state, jump]
      rfl
    · simp [countDecoded, ofDecode, Activity.jump?, Activity.state, jump]
      rfl
  | idle => rfl
  | bubble => rfl
  | stalled d => rfl
  | flushed d => rfl

theorem countFetched_eq_add (s : Statistics) (a : Activity Fetched) :
    s.countFetched a = s + ofFetch a := by
  cases a <;> rfl

end Statistics

/-- The counts of a cycle. -/
def Cycle.tally (c : Cycle) : Statistics :=
  { cycles := 1, loadUseStalls := if c.stall then 1 else 0 }
    + .ofWriteback c.writeback.entry?
    + .ofExecute (c.execute.entry?.map (·.entry))
    + .ofDecode c.decode
    + .ofFetch c.fetch

namespace Statistics

theorem count_eq_add (s : Statistics) (c : Cycle) : s.count c = s + c.tally := by
  obtain ⟨writeback, memory, execute, stall, decode, fetch⟩ := c
  unfold count Cycle.tally
  rw [countFetched_eq_add, countDecoded_eq_add]
  simp only [← add_assoc]
  congr 2
  cases writeback with
  | empty => cases execute with
    | empty => rfl
    | bubble => rfl
    | valid e => exact countExecuted_eq_add _ e.entry
  | bubble => cases execute with
    | empty => rfl
    | bubble => rfl
    | valid e => exact countExecuted_eq_add _ e.entry
  | valid a =>
    simp only [retire_eq_add]
    cases execute with
    | empty => rfl
    | bubble => rfl
    | valid e => exact countExecuted_eq_add _ e.entry

theorem retired_count (s : Statistics) (c : Cycle) :
    (s.count c).retired = s.retired + c.writeback.entry?.toList.length := by
  rw [count_eq_add]
  change s.retired + (0 + (ofWriteback c.writeback.entry?).retired) = _
  rw [Nat.zero_add]
  cases c.writeback.entry? <;> rfl

/-- Every retired instruction is counted in one category. -/
def Mixed (s : Statistics) : Prop :=
  s.retired = s.alu + s.loads + s.stores + s.branches + s.jumpsRetired

theorem Mixed.add {s t : Statistics} (hs : s.Mixed) (ht : t.Mixed) : (s + t).Mixed := by
  unfold Mixed at hs ht ⊢
  simp only [add_eq, Statistics.add]
  omega

theorem mixed_ofWriteback (w : Option Accessed) : (ofWriteback w).Mixed := by
  cases w with
  | none => simp [Mixed, ofWriteback]
  | some a => cases category : a.inst.op.category <;> simp [Mixed, ofWriteback, category]

theorem mixed_tally (c : Cycle) : c.tally.Mixed := by
  have retired := mixed_ofWriteback c.writeback.entry?
  have started : Mixed { cycles := 1, loadUseStalls := if c.stall then 1 else 0 } := rfl
  have executed : (ofExecute (c.execute.entry?.map (·.entry))).Mixed := rfl
  have decoded : (ofDecode c.decode).Mixed := rfl
  have fetched : (ofFetch c.fetch).Mixed := rfl
  exact (((started.add retired).add executed).add decoded).add fetched

theorem Mixed.count {s : Statistics} (mixed : s.Mixed) (c : Cycle) : (s.count c).Mixed := by
  rw [count_eq_add]
  exact mixed.add (mixed_tally c)

end Statistics

end MipsPipeline
