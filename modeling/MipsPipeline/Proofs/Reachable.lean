import MipsPipeline.Proofs.Drain
import MipsPipeline.Simulator.Call

/-
What calls can do to a simulator. A property that the clock keeps, and that does not depend on the
machine or survives its replacement, holds in every state that can be reached.
-/
namespace MipsPipeline.Simulator

/-- What one call makes of a simulator. -/
inductive Change (s : Simulator) : Simulator → Prop where
  /-- The clock ticks, or a refused call leaves everything as it was. -/
  | runs (n : Nat) : Change s (s.run n)
  | edits (m : Machine) : Change s { s with machine := m }
  /-- The latches are emptied, observations are kept. -/
  | restarts (m : Machine) : Change s { s with machine := m, latches := {} }
  /-- The latches are emptied and observations forgotten. -/
  | resets (m : Machine) : Change s
      { s with
        machine := m
        latches := {}
        statistics := {}
        history := s.history.clear
        cycle := 0 }

theorem change_afterLoad (s : Simulator) (loaded : Except LoadError (Machine × LoadReport)) :
    s.Change (s.afterLoad (loaded.map s.restart)) := by
  cases loaded with
  | error cause => exact .runs 0
  | ok loaded => exact .restarts loaded.1

theorem change_perform (s : Simulator) (c : Call) : s.Change (s.perform c) := by
  cases c with
  | load format text start => exact s.change_afterLoad _
  | loadWords words start => exact s.change_afterLoad _
  | reset options =>
    by_cases aligned : options.pc.Aligned
    · simp only [perform, reset, if_pos aligned]
      exact .resets _
    · simp only [perform, reset, if_neg aligned]
      exact .runs 0
  | step => exact .runs 1
  | run cycles => exact .runs cycles
  | runUntilDrained cycles =>
    obtain ⟨n, -, same, -⟩ := s.runUntilDrained_eq_run cycles
    rw [perform, same]
    exact .runs n
  | flush => exact .restarts s.machine
  | writeRegister register value => exact .edits _
  | storeWord address value => exact .edits _
  | setPc pc => exact .edits _

/-- A property that new simulators have and no call can take away. -/
structure Kept (P : Simulator → Prop) : Prop where
  start : ∀ settings, P (ofSettings settings)
  step : ∀ s, P s → P s.step
  edit : ∀ (s : Simulator) (m : Machine), P s → P { s with machine := m }
  restart : ∀ (s : Simulator) (m : Machine), P s → P { s with machine := m, latches := {} }
  reset : ∀ (s : Simulator) (m : Machine), P s → P
    { s with machine := m, latches := {}, statistics := {}, history := s.history.clear, cycle := 0 }

namespace Kept

variable {P : Simulator → Prop} {s t : Simulator}

theorem of_change (kept : Kept P) (holds : P s) (change : s.Change t) : P t := by
  cases change with
  | runs n => exact holds_run kept.step holds n
  | edits m => exact kept.edit s m holds
  | restarts m => exact kept.restart s m holds
  | resets m => exact kept.reset s m holds

theorem performAll (kept : Kept P) (holds : P s) (calls : List Call) :
    P (s.performAll calls) := by
  induction calls generalizing s with
  | nil => exact holds
  | cons c calls ih => exact ih (kept.of_change holds (s.change_perform c))

theorem of_reachable {allowed : Call → Prop} (kept : Kept P) (reachable : s.Reachable allowed) :
    P s := by
  obtain ⟨settings, calls, -, rfl⟩ := reachable
  exact kept.performAll (kept.start settings) calls

end Kept

end MipsPipeline.Simulator
