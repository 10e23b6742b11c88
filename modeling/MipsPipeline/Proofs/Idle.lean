import MipsPipeline.Proofs.Drain
import MipsPipeline.Simulator.Call

/-
A drained pipeline goes on fetching. It passes the addresses where nothing is loaded one by one and
changes nothing on the way; past the last address it starts again at address 0, so that it stays
drained for good only where no instruction can ever be met.
-/
namespace MipsPipeline

theorem CodeMemory.fetch_of_unaligned {m : CodeMemory} {address : Word}
    (unaligned : ¬ address.Aligned) : m.fetch address = none := if_neg unaligned

theorem CodeMemory.fetch_add_ofIndex_eq_none_iff (m : CodeMemory) (address : Word) :
    (∀ n, m.fetch (address + Word.ofIndex n) = none) ↔
      ¬ address.Aligned ∨ ∀ other, m.fetch other = none := by
  constructor
  · intro passed
    by_cases aligned : address.Aligned
    · refine .inr fun other => ?_
      by_cases aligned' : other.Aligned
      · obtain ⟨n, rfl⟩ := Word.exists_add_ofIndex aligned aligned'
        exact passed n
      · exact fetch_of_unaligned aligned'
    · exact .inl aligned
  · rintro (unaligned | nothing) n
    · exact fetch_of_unaligned (mt (address.aligned_add_ofIndex n).mp unaligned)
    · exact nothing _

theorem Cycle.start_of_unloaded {m : Machine} (unloaded : m.current? = none) :
    start m {} = ⟨.empty, .empty, .empty, false, .idle, .idle⟩ := by
  simp [start, Slot.map, LoadUse, Slot.entry?, Latches.decode, Machine.intake,
    Machine.fetch_of_unloaded unloaded]

namespace Simulator

variable {s : Simulator}

theorem step_run (s : Simulator) (n : Nat) : (s.run n).step = s.run (n + 1) := by
  induction n generalizing s with
  | zero => rfl
  | succ n ih => exact ih s.step

theorem isDrained_iff (s : Simulator) :
    s.IsDrained ↔ s.latches = {} ∧ s.machine.current? = none := by
  rw [IsDrained, Latches.allEmpty_iff]

theorem step_of_drained (drained : s.IsDrained) :
    s.step.latches = {} ∧ s.step.machine = { s.machine with pc := s.machine.pc.next } ∧
      s.step.statistics.retired = s.statistics.retired := by
  obtain ⟨fresh, unloaded⟩ := s.isDrained_iff.mp drained
  refine ⟨?_, ?_, ?_⟩
  · rw [step, fresh, Cycle.start_of_unloaded unloaded]
    rfl
  · rw [step, fresh, Cycle.start_of_unloaded unloaded]
    rfl
  · rw [retired_step, fresh]
    rfl

/-- The next cycles, up to the one that meets an instruction, change nothing else. -/
theorem run_of_unloaded (fresh : s.latches = {}) {n : Nat}
    (unloaded : ∀ i < n, s.machine.code.fetch (s.machine.pc + Word.ofIndex i) = none) :
    (s.run n).latches = {} ∧
      (s.run n).machine = { s.machine with pc := s.machine.pc + Word.ofIndex n } ∧
      (s.run n).statistics.retired = s.statistics.retired := by
  induction n with
  | zero =>
    rw [Word.add_ofIndex_zero]
    exact ⟨fresh, rfl, rfl⟩
  | succ n ih =>
    obtain ⟨latches, machine, retired⟩ := ih fun i less => unloaded i (Nat.lt_succ_of_lt less)
    have drained : (s.run n).IsDrained := by
      rw [isDrained_iff, machine]
      exact ⟨latches, unloaded n (Nat.lt_succ_self n)⟩
    obtain ⟨latches', machine', retired'⟩ := step_of_drained drained
    rw [← step_run, machine', retired', machine, retired]
    exact ⟨latches', by rw [Word.next_add_ofIndex], rfl⟩

theorem drained_run_iff (drained : s.IsDrained) (n : Nat) :
    (∀ j ≤ n, (s.run j).IsDrained) ↔
      ∀ i ≤ n, s.machine.code.fetch (s.machine.pc + Word.ofIndex i) = none := by
  have fresh := (s.isDrained_iff.mp drained).1
  constructor
  · intro stays i
    -- That fetch has met nothing so far tells where it stands in the next cycle.
    induction i using Nat.strongRecOn with
    | ind i ih =>
      intro le
      obtain ⟨-, machine, -⟩ := run_of_unloaded fresh fun j less =>
        ih j less (Nat.le_trans (Nat.le_of_lt less) le)
      have nothing := (stays i le).2
      rwa [machine] at nothing
  · intro unloaded j le
    obtain ⟨latches, machine, -⟩ := run_of_unloaded fresh fun i less =>
      unloaded i (Nat.le_trans (Nat.le_of_lt less) le)
    rw [isDrained_iff, machine]
    exact ⟨latches, unloaded j le⟩

/-- A drained pipeline stays drained for as long as fetch finds nothing, and changes nothing but
the program counter until then; it does so for good just if the program counter is unaligned or
nothing is loaded at all. -/
theorem run_of_drained {s : Simulator} (drained : s.IsDrained) :
    (∀ n, (∀ j ≤ n, (s.run j).IsDrained) ↔
      ∀ i ≤ n, s.machine.code.fetch (s.machine.pc + Word.ofIndex i) = none) ∧
    (∀ n, (∀ i < n, s.machine.code.fetch (s.machine.pc + Word.ofIndex i) = none) →
      (s.run n).latches = {} ∧
      (s.run n).machine = { s.machine with pc := s.machine.pc + Word.ofIndex n } ∧
      (s.run n).statistics.retired = s.statistics.retired) ∧
    ((∀ n, (s.run n).IsDrained) ↔
      ¬ s.machine.pc.Aligned ∨ ∀ address, s.machine.code.fetch address = none) := by
  refine ⟨drained_run_iff drained, fun n => run_of_unloaded (s.isDrained_iff.mp drained).1, ?_⟩
  rw [← s.machine.code.fetch_add_ofIndex_eq_none_iff]
  constructor
  · intro stays n
    exact (drained_run_iff drained n).mp (fun j _ => stays j) n (Nat.le_refl n)
  · intro unloaded n
    exact (drained_run_iff drained n).mpr (fun i _ => unloaded i) n (Nat.le_refl n)

/-- At address 16 there are `addi $t0, $t0, 1` and a jump to address 0. After six cycles both are
retired, and three of the four empty words in front of them are passed. -/
def belowProgram : Simulator :=
  (ofSettings { codeWords := 8, dataWords := 4 }).performAll
    (.loadWords [0x21080001, 0x08000000] 16 :: List.replicate 6 .step)

theorem run_of_drained_belowProgram :
    belowProgram.IsDrained ∧ ¬ ∀ n, (belowProgram.run n).IsDrained := by
  have drained : belowProgram.IsDrained := by decide
  refine ⟨drained, fun stays => ?_⟩
  rcases (run_of_drained drained).2.2.mp stays with unaligned | nothing
  · exact unaligned (by decide)
  · exact absurd (nothing 16) (by decide)

/-- Drained is not final: one more cycle, and the program is about to be fetched again. -/
theorem drained_not_final :
    ¬ ∀ s : Simulator, s.Reachable Call.Plain → s.IsDrained →
      ∀ n, (s.run n).IsDrained ∧
        (s.run n).machine.registers = s.machine.registers ∧
        (s.run n).machine.data = s.machine.data ∧
        (s.run n).statistics.retired = s.statistics.retired := by
  intro final
  have reachable : belowProgram.Reachable Call.Plain := ⟨_, _, by decide, rfl⟩
  have later := final belowProgram reachable (by decide)
  exact absurd (later 1).1 (by decide)

end Simulator

end MipsPipeline
