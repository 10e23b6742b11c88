import MipsPipeline.Proofs.Counting
import MipsPipeline.Proofs.Timeline

/-
Records tell the counts. What a cycle adds to the statistics can be read off its record, so that
the statistics of any run are those it started from and a recount of its records.
-/
namespace MipsPipeline

theorem Op.category_iff (op : Op) :
    (op.category = .alu ↔ op ∈ [.add, .sub, .and, .or, .xor, .nor, .slt, .sll, .srl, .sra,
      .addi, .slti, .andi, .ori]) ∧
    (op.category = .load ↔ op ∈ [.lw]) ∧ (op.category = .store ↔ op ∈ [.sw]) ∧
    (op.category = .branch ↔ op ∈ [.beq, .bne]) ∧
    (op.category = .jump ↔ op ∈ [.j, .jal, .jr]) := by
  cases op <;> decide

/-- The record shows an instruction in writeback with one of these operations. -/
def Snapshot.Retires (x : Snapshot) (ops : List Op) : Prop :=
  ∃ a ∈ x.writeback.active?, a.inst.op ∈ ops

instance (x : Snapshot) (ops : List Op) : Decidable (x.Retires ops) :=
  inferInstanceAs (Decidable (∃ a ∈ x.writeback.active?, _))

def Snapshot.sources (x : Snapshot) : List ValueSource :=
  x.execute.active?.toList.flatMap fun e => [e.sourceA, e.sourceB]

namespace Statistics

/-- Statistics made of nothing but records. -/
def recount (h : List Snapshot) : Statistics where
  cycles := h.length
  retired := h.countP (·.writeback.state = .instr)
  alu := h.countP (·.Retires [.add, .sub, .and, .or, .xor, .nor, .slt, .sll, .srl, .sra,
    .addi, .slti, .andi, .ori])
  loads := h.countP (·.Retires [.lw])
  stores := h.countP (·.Retires [.sw])
  branches := h.countP (·.Retires [.beq, .bne])
  jumpsRetired := h.countP (·.Retires [.j, .jal, .jr])
  branchesTaken := h.countP fun x => ∃ e ∈ x.execute.active?, e.control.branch ∧ e.taken
  branchesNotTaken := h.countP fun x => ∃ e ∈ x.execute.active?, e.control.branch ∧ ¬ e.taken
  jumps := h.countP fun x => ∃ d ∈ x.decode.active?, d.control.jump
  flushed := h.countP (·.fetch.state = .flush) + h.countP (·.decode.state = .flush)
  loadUseStalls := h.countP (·.decode.state = .stall)
  bypassedExMem := (h.flatMap (·.sources)).count .exMem
  bypassedMemWb := (h.flatMap (·.sources)).count .memWb

theorem recount_append (h h' : List Snapshot) :
    recount (h ++ h') = recount h + recount h' := by
  ext <;> simp [recount, add_eq, add]
  omega

end Statistics

theorem Fetched.isSome_jump_decode (f : Fetched) (registers : RegisterFile) :
    (f.decode registers).jump.isSome = (f.decode registers).entry.control.jump := by
  by_cases jump : (Control.ofOp f.inst.op).jump = true
  · simp [decode, jump]
  · simp [decode, jump]

/-- A jump is counted in decode just if the record shows its control signal. -/
theorem Latches.isSome_jump?_decode (l : Latches) (registers : RegisterFile) (stall : Bool)
    (redirect : Option Word) :
    (l.decode registers stall redirect).jump?.isSome ↔
      ∃ d ∈ ((l.decode registers stall redirect).map (·.entry)).active?,
        d.control.jump = true := by
  cases held : l.ifId with
  | empty => simp [decode_empty held, Activity.map, Activity.jump?, Activity.active?]
  | bubble => simp [decode_bubble held, Activity.map, Activity.jump?, Activity.active?]
  | valid f =>
    rw [decode_valid held]
    split
    · simp [Activity.map, Activity.jump?, Activity.active?]
    · split
      · simp [Activity.map, Activity.jump?, Activity.active?]
      · simp [Activity.map, Activity.jump?, Activity.active?, f.isSome_jump_decode]

namespace Simulator

variable (s : Simulator)

theorem jumping_iff :
    (Cycle.start s.machine s.latches).decode.jump?.isSome ↔
      ∃ d ∈ s.observed.decode.active?, d.control.jump = true :=
  s.latches.isSome_jump?_decode _ _ _

/-- The record of a cycle tells its counts. -/
theorem recount_observed : .recount [s.observed] = (Cycle.start s.machine s.latches).tally := by
  have writeback : s.observed.writeback.active? = s.latches.memWb.entry? := by
    rw [observed_writeback, Activity.active?_ofSlot]
  have execute : s.observed.execute.active? = s.latches.execute.entry?.map (·.entry) := by
    rw [observed_execute, Activity.active?_ofSlot, Slot.entry?_map]
  have retired : s.observed.writeback.state = .instr ↔ s.latches.memWb.entry?.isSome = true := by
    rw [observed_writeback]
    cases s.latches.memWb <;> simp [Activity.ofSlot, Activity.state, Slot.entry?]
  have retires (ops : List Op) (category : Category)
      (same : ∀ op : Op, op.category = category ↔ op ∈ ops) :
      s.observed.Retires ops ↔ ∃ a ∈ s.latches.memWb.entry?, a.inst.op.category = category := by
    simp only [Snapshot.Retires, same, writeback]
  have stalls := s.loadUse_iff_decode_stalled.symm.trans decide_eq_true_iff.symm
  ext <;> simp only [Statistics.recount, Cycle.tally, Statistics.add_eq, Statistics.add,
    Statistics.ofWriteback, Statistics.ofExecute, Statistics.ofDecode, Statistics.ofFetch,
    List.countP_singleton, List.flatMap_singleton, Snapshot.sources, execute,
    Nat.zero_add, Nat.add_zero, decide_eq_true_eq]
  case cycles => rfl
  case retired => exact if_congr retired rfl rfl
  case alu => exact if_congr (retires _ _ fun op => op.category_iff.1) rfl rfl
  case loads => exact if_congr (retires _ _ fun op => op.category_iff.2.1) rfl rfl
  case stores => exact if_congr (retires _ _ fun op => op.category_iff.2.2.1) rfl rfl
  case branches => exact if_congr (retires _ _ fun op => op.category_iff.2.2.2.1) rfl rfl
  case jumpsRetired => exact if_congr (retires _ _ fun op => op.category_iff.2.2.2.2) rfl rfl
  case branchesTaken => rfl
  case branchesNotTaken => rfl
  case jumps => exact if_congr s.jumping_iff.symm rfl rfl
  case flushed =>
    rw [observed_decode, Activity.state_map]
    exact Nat.add_comm _ _
  case loadUseStalls => exact if_congr stalls rfl rfl
  case bypassedExMem => rfl
  case bypassedMemWb => rfl

theorem statistics_step : s.step.statistics = s.statistics + .recount [s.observed] := by
  rw [recount_observed]
  exact s.statistics.count_eq_add _

theorem statistics_run_eq_add (n : Nat) :
    (s.run n).statistics = s.statistics + .recount (s.records n) := by
  induction n generalizing s with
  | zero => rfl
  | succ n ih =>
    rw [run, ih s.step, statistics_step, Statistics.add_assoc, ← Statistics.recount_append]
    rfl

end Simulator

end MipsPipeline
