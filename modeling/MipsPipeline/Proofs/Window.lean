import MipsPipeline.Proofs.Renewal
import MipsPipeline.Proofs.Tally

/-
The history as a window on the past. The past is the records of all cycles since the last reset,
whatever the limit of the history; the history is the end of it that the limit leaves room for.
-/
namespace MipsPipeline.Simulator

/-- The simulator has gone through this past and remembers the end of it. -/
structure Remembers (s : Simulator) (past : List Snapshot) : Prop where
  counted : s.statistics.cycles = s.cycle
  numbers : past.map (·.cycle) = List.range' 1 s.cycle
  history : s.history.toList = past.drop (s.cycle - s.history.limit)

section Remembers

variable {s : Simulator} {past : List Snapshot}

theorem remembers_nothing (counted : s.statistics.cycles = 0) (cycle : s.cycle = 0)
    (history : s.history.toList = []) : s.Remembers [] where
  counted := counted.trans cycle.symm
  numbers := by rw [cycle]; rfl
  history := by rw [history, List.drop_nil]

namespace Remembers

theorem length (remembers : s.Remembers past) : past.length = s.cycle := by
  have lengths := congrArg List.length remembers.numbers
  rwa [List.length_map, List.length_range'] at lengths

theorem size (remembers : s.Remembers past) :
    s.history.size = s.cycle - (s.cycle - s.history.limit) := by
  rw [← Recent.length_toList, remembers.history, List.length_drop, remembers.length]

/-- A cycle goes to the end of the past, and pushes the oldest one out of a full history. -/
theorem step (remembers : s.Remembers past) : s.step.Remembers (past ++ [s.observed]) where
  counted := by
    rw [statistics_step]
    exact congrArg Nat.succ remembers.counted
  numbers := by
    have next : s.observed.cycle = 1 + s.cycle := Nat.add_comm ..
    have later : s.step.cycle = s.cycle + 1 := rfl
    rw [List.map_append, remembers.numbers, later, List.range'_1_concat, List.map_singleton, next]
  history := by
    have size := remembers.size
    have length := remembers.length
    have later : s.step.cycle = s.cycle + 1 := rfl
    have early : s.cycle - s.history.limit ≤ past.length := by omega
    -- One more cycle is lost if and only if the history was full.
    have moved : s.cycle - s.history.limit + (s.history.size + 1 - s.history.limit) =
        s.cycle + 1 - s.history.limit := by omega
    rw [history_step, Recent.toList_push, Recent.limit_push, remembers.history, later,
      ← List.drop_append_of_le_length early, List.drop_drop, moved]

theorem numbers_history (remembers : s.Remembers past) :
    s.history.toList.map (·.cycle) =
      List.range' (s.cycle - min s.history.limit s.cycle + 1) (min s.history.limit s.cycle) := by
  have kept : s.cycle - (s.cycle - s.history.limit) = min s.history.limit s.cycle := by omega
  have first : 1 + (s.cycle - s.history.limit) * 1 =
      s.cycle - min s.history.limit s.cycle + 1 := by omega
  rw [remembers.history, List.map_drop, remembers.numbers, List.drop_range', kept, first]

end Remembers

end Remembers

/-- Two simulators with one past between them. -/
structure Share (s t : Simulator) (past : List Snapshot) : Prop where
  alike : Alike s t
  left : s.Remembers past
  right : t.Remembers past

namespace Share

variable {s t : Simulator} {past : List Snapshot}

theorem run (share : Share s t past) (n : Nat) : ∃ past', Share (s.run n) (t.run n) past' := by
  induction n generalizing s t past with
  | zero => exact ⟨past, share⟩
  | succ n ih =>
    have right := share.right.step
    rw [← share.alike.observed] at right
    exact ih ⟨share.alike.step, share.left.step, right⟩

theorem perform (share : Share s t past) (c : Call) :
    ∃ past', Share (s.perform c) (t.perform c) past' := by
  have alike := share.alike.perform c
  have together := share.alike.together c
  generalize s.perform c = s', t.perform c = t' at alike together
  cases together with
  | runs n => exact share.run n
  | edits m => exact ⟨past, alike, { share.left with }, { share.right with }⟩
  | restarts m => exact ⟨past, alike, { share.left with }, { share.right with }⟩
  | resets m => exact ⟨[], alike, remembers_nothing rfl rfl rfl, remembers_nothing rfl rfl rfl⟩

theorem performAll (share : Share s t past) (calls : List Call) :
    ∃ past', Share (s.performAll calls) (t.performAll calls) past' := by
  induction calls generalizing s t past with
  | nil => exact ⟨past, share⟩
  | cons c calls ih =>
    obtain ⟨past', share'⟩ := share.perform c
    exact ih share'

end Share

theorem share_performAll {u v : Settings} (same : u.SameMachine v) (calls : List Call) :
    ∃ past, Share ((ofSettings u).performAll calls) ((ofSettings v).performAll calls) past :=
  Share.performAll ⟨.ofSettings same, remembers_nothing rfl rfl rfl, remembers_nothing rfl rfl rfl⟩
    calls

/-- After any calls the history is the end of the past that there is room for, of the past as the
same machine holds it with a history that has room for all of it. -/
theorem history_is_recent_past {u : Settings} {calls : List Call} {s : Simulator}
    (reached : (ofSettings u).performAll calls = s) :
    s.statistics.cycles = s.cycle ∧
    s.history.toList.length = min u.historyLimit s.cycle ∧
    s.history.toList.map (·.cycle) =
      List.range' (s.cycle - min u.historyLimit s.cycle + 1) (min u.historyLimit s.cycle) ∧
    ∀ v t, u.SameMachine v → (ofSettings v).performAll calls = t → s.cycle ≤ v.historyLimit →
      t.history.toList.length = s.cycle ∧
      s.history.toList = t.history.toList.drop (s.cycle - min u.historyLimit s.cycle) := by
  have limit : s.history.limit = u.historyLimit :=
    reached ▸ ((BuiltFor.ofSettings u).performAll calls).limit
  obtain ⟨past, alone⟩ := share_performAll (.refl u) calls
  rw [reached] at alone
  have numbers := alone.left.numbers_history
  rw [limit] at numbers
  refine ⟨alone.left.counted, ?_, numbers, ?_⟩
  · have lengths := congrArg List.length numbers
    rwa [List.length_map, List.length_range'] at lengths
  · intro v t same reached' room
    have limit' : t.history.limit = v.historyLimit :=
      reached' ▸ ((BuiltFor.ofSettings v).performAll calls).limit
    obtain ⟨past, share⟩ := share_performAll same calls
    rw [reached, reached'] at share
    have cycle := share.alike.cycle
    have nothing_lost : t.cycle - t.history.limit = 0 := by omega
    have whole : t.history.toList = past := by
      rw [share.right.history, nothing_lost, List.drop_zero]
    have lost : s.cycle - s.history.limit = s.cycle - min u.historyLimit s.cycle := by omega
    constructor
    · rw [whole, share.left.length]
    · rw [whole, share.left.history, lost]

theorem history_is_recent_past_busy :
    ((ofSettings startingLate).performAll busyCalls).cycle = 13 ∧
      ((ofSettings startingLate).performAll busyCalls).history.toList.map (·.cycle) =
        [11, 12, 13] ∧
      ((ofSettings startingLate).performAll busyCalls).history.toList =
        ((ofSettings { startingLate with historyLimit := 13 }).performAll
          busyCalls).history.toList.drop 10 := by
  have same : startingLate.SameMachine { startingLate with historyLimit := 13 } := ⟨rfl, rfl, rfl⟩
  have cycle : ((ofSettings startingLate).performAll busyCalls).cycle = 13 := by decide
  obtain ⟨-, -, numbers, recent⟩ := history_is_recent_past rfl
  obtain ⟨-, history⟩ := recent _ _ same rfl (by rw [cycle])
  rw [cycle] at numbers history
  exact ⟨cycle, numbers, history⟩

end MipsPipeline.Simulator
