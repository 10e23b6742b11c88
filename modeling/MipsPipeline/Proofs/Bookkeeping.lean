import MipsPipeline.Proofs.Reachable
import MipsPipeline.Proofs.Tally

/-
Statistics, hazard reports and history tell one story. The reports of a cycle agree in number with
its record, and as long as the history has room for every cycle since the last reset, the
statistics are a recount of it, whatever was loaded, flushed or written in between.
-/
namespace MipsPipeline

/-- As many reports of each kind as the record shows reasons for. -/
structure Snapshot.Reported (x : Snapshot) : Prop where
  stalls : x.hazards.countP (·.kind = .stall) = if x.decode.state = .stall then 1 else 0
  bypasses : x.hazards.countP (·.kind = .data) = x.sources.countP (· ≠ .registerFile)
  transfers : x.hazards.countP (·.kind = .control) =
    (if ∃ e ∈ x.execute.active?, e.taken then 1 else 0) +
      if ∃ d ∈ x.decode.active?, d.control.jump then 1 else 0

namespace Hazard

theorem kind_loadUse? {idEx : Slot Decoded} {ifId : Slot Fetched} (stall : LoadUse idEx ifId) :
    (loadUse? idEx ifId).toList.map (·.kind) = [.stall] := by
  obtain ⟨d, loading, f, using', -⟩ := stall
  rw [Slot.eq_valid loading, Slot.eq_valid using']
  rfl

theorem kind_bypasses (e : Executed) (rs rt : Nat) :
    (bypasses e rs rt).map (·.kind) =
      .replicate ([e.sourceA, e.sourceB].countP (· ≠ .registerFile)) .data := by
  unfold bypasses
  cases e.sourceA <;> cases e.sourceB <;> rfl

end Hazard

/-- The kinds of the reports of a cycle, in their order. -/
theorem Cycle.kind_hazards (m : Machine) (l : Latches) :
    ((start m l).hazards l).map (·.kind) =
      (if LoadUse l.idEx l.ifId then [.stall] else []) ++
      (.replicate ((l.execute.entry?.toList.flatMap fun e =>
        [e.entry.sourceA, e.entry.sourceB]).countP (· ≠ .registerFile)) .data ++
      if l.execute.redirect?.isSome then [.control] else []) ++
      if (start m l).decode.jump?.isSome then [.control] else [] := by
  simp only [hazards, List.map_append]
  refine congrArg₂ (· ++ ·) (congrArg₂ (· ++ ·) ?stalls ?executes) ?jumps
  case stalls =>
    by_cases stall : LoadUse l.idEx l.ifId
    · simpa [start, stall] using Hazard.kind_loadUse? stall
    · simp [start, stall]
  case executes =>
    unfold Latches.execute
    cases idEx : l.idEx with
    | empty => rfl
    | bubble => rfl
    | valid d =>
      simp only [start, idEx, Slot.map, Slot.entry?, Slot.redirect?, List.map_append]
      rw [Hazard.kind_bypasses]
      cases redirect : (d.execute l.exMem l.memWb).redirect <;> simp [redirect, Hazard.kind]
  case jumps =>
    cases (start m l).decode with
    | active d => cases jump : d.jump <;> simp [Activity.jump?, jump, Hazard.kind]
    | idle => rfl
    | bubble => rfl
    | stalled d => rfl
    | flushed d => rfl

theorem HazardKind.count_if (p : Prop) [Decidable p] (k k' : HazardKind) :
    (if p then [k] else []).count k' = if k = k' then if p then 1 else 0 else 0 := by
  by_cases holds : p <;> by_cases same : k = k' <;> simp [holds, same]

namespace Simulator

theorem taken_iff (s : Simulator) :
    s.latches.execute.redirect?.isSome ↔ ∃ e ∈ s.observed.execute.active?, e.taken = true := by
  rw [observed_execute, Activity.active?_ofSlot, Latches.execute]
  cases s.latches.idEx with
  | empty => simp [Slot.map, Slot.redirect?, Slot.entry?]
  | bubble => simp [Slot.map, Slot.redirect?, Slot.entry?]
  | valid d => simp [Slot.map, Slot.redirect?, Slot.entry?, Decoded.execute]

theorem sources_observed (s : Simulator) :
    s.observed.sources = s.latches.execute.entry?.toList.flatMap fun e =>
      [e.entry.sourceA, e.entry.sourceB] := by
  rw [Snapshot.sources, observed_execute, Activity.active?_ofSlot, Slot.entry?_map]
  cases s.latches.execute.entry? <;> rfl

theorem reported_observed (s : Simulator) : s.observed.Reported := by
  have counted (k : HazardKind) : s.observed.hazards.countP (·.kind = k) =
      (s.observed.hazards.map (·.kind)).count k := by
    rw [List.count_eq_countP, List.countP_map]
    rfl
  have kinds : s.observed.hazards.map (·.kind) = _ := Cycle.kind_hazards s.machine s.latches
  rw [← sources_observed] at kinds
  have sums := fun k => (counted k).trans (congrArg (List.count k) kinds)
  simp only [List.count_append, HazardKind.count_if, List.count_replicate] at sums
  refine ⟨?_, ?_, ?_⟩
  · rw [sums]
    simp [loadUse_iff_decode_stalled]
  · rw [sums]
    simp
  · rw [sums]
    simp [taken_iff, jumping_iff]

/-- The history holds agreeing records, and all of them while there is room. -/
structure Recorded (s : Simulator) : Prop where
  limit : s.history.limit = s.settings.historyLimit
  reported : ∀ x ∈ s.history.toList, x.Reported
  complete : s.cycle ≤ s.settings.historyLimit → s.history.size = s.cycle
  recounted : s.cycle ≤ s.settings.historyLimit → s.statistics = .recount s.history.toList

theorem Recorded.step {s : Simulator} (recorded : s.Recorded) : s.step.Recorded := by
  have pushed : s.step.history.toList =
      (s.history.toList ++ [s.observed]).drop (s.history.size + 1 - s.history.limit) := by
    rw [history_step, Recent.toList_push]
  have grown (short : s.step.cycle ≤ s.settings.historyLimit) :
      s.step.history.toList = s.history.toList ++ [s.observed] := by
    have room : s.cycle + 1 ≤ s.settings.historyLimit := short
    have size := recorded.complete (Nat.le_of_succ_le room)
    have limit := recorded.limit
    rw [pushed, show s.history.size + 1 - s.history.limit = 0 by omega, List.drop_zero]
  refine ⟨?_, ?_, ?_, ?_⟩
  · rw [history_step, Recent.limit_push]
    exact recorded.limit
  · intro x member
    rw [pushed] at member
    rcases List.mem_append.mp (List.mem_of_mem_drop member) with earlier | now
    · exact recorded.reported x earlier
    · rw [List.mem_singleton.mp now]
      exact s.reported_observed
  · intro short
    have size := recorded.complete (Nat.le_of_succ_le short)
    rw [← Recent.length_toList, grown short, List.length_append, Recent.length_toList, size]
    rfl
  · intro short
    rw [statistics_step, grown short, Statistics.recount_append,
      recorded.recounted (Nat.le_of_succ_le short)]

theorem recorded_of_empty {s : Simulator} (history : s.history = .empty s.settings.historyLimit)
    (statistics : s.statistics = {}) (cycle : s.cycle = 0) : s.Recorded := by
  refine ⟨?_, ?_, ?_, ?_⟩
  · rw [history]
    rfl
  · intro x member
    rw [history, Recent.toList_empty] at member
    cases member
  · intro _
    rw [history, cycle]
    rfl
  · intro _
    rw [statistics, history]
    rfl

theorem kept_recorded : Kept Recorded where
  start _ := recorded_of_empty rfl rfl rfl
  step _ recorded := recorded.step
  edit _ _ recorded := { recorded with }
  restart _ _ recorded := { recorded with }
  reset _ _ recorded := recorded_of_empty (congrArg Recent.empty recorded.limit) rfl rfl

/-- Whatever was called: while the history has room for every cycle since the last reset, the
statistics are a recount of it; and every retained record has its reports. -/
theorem statistics_eq_recount {s : Simulator} (reachable : s.Reachable fun _ => True) :
    (s.cycle ≤ s.settings.historyLimit → s.statistics = .recount s.history.toList) ∧
      ∀ x ∈ s.history.toList, x.Reported := by
  have recorded : s.Recorded := kept_recorded.of_reachable reachable
  exact ⟨recorded.recounted, recorded.reported⟩

/-- A load, a branch that waits for it and a jump, interrupted by writes, a flush and another
load. -/
def interrupted : Simulator :=
  (ofSettings { codeWords := 8, dataWords := 4 }).performAll
    [.loadWords [0x8C080000, 0x11000001, 0x20090001, 0x08000000] 0, .run 9, .storeWord 0 7,
      .flush, .setPc 0, .run 8, .loadWords [0x8C080000, 0x11000001] 4, .writeRegister 8 1, .step,
      .run 5]

theorem statistics_eq_recount_interrupted :
    (interrupted.Reachable fun _ => True) ∧
      interrupted.cycle = 23 ∧ interrupted.cycle ≤ interrupted.settings.historyLimit ∧
      interrupted.statistics = .recount interrupted.history.toList ∧
      ∀ x ∈ interrupted.history.toList, x.Reported := by
  have reachable : interrupted.Reachable fun _ => True := ⟨_, _, fun _ _ => trivial, rfl⟩
  have short : interrupted.cycle ≤ interrupted.settings.historyLimit := by decide
  obtain ⟨recounted, reported⟩ := statistics_eq_recount reachable
  exact ⟨reachable, rfl, short, recounted short, reported⟩

end Simulator

end MipsPipeline
