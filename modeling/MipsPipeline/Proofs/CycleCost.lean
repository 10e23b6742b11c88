import MipsPipeline.Proofs.Drain

/-
What an instruction costs. The first one is in writeback in the fifth cycle; the next one follows
in the next cycle, or later by what is lost between them: one cycle to a load whose data it reads,
two to a taken branch or a jump through a register, one to a jump to a fixed target, and one for
each address that is passed with nothing loaded there.
-/
namespace MipsPipeline

namespace Machine

/-- How many of the first `n` steps start from a machine with a property. -/
def count (m : Machine) (property : Machine → Prop) [DecidablePred property] (n : Nat) : Nat :=
  (List.range n).countP fun k => property (m.steps k)

/-- The machine executes `n` instructions and one more, which goes on to the next word, and
nothing is loaded there. -/
structure FallsOff (m : Machine) (n : Nat) : Prop where
  loaded : ∀ i ≤ n, (m.steps i).current? ≠ none
  straight : ¬ (m.steps n).Branches
  onward : ¬ (m.steps n).Jumps
  unloaded : (m.steps (n + 1)).current? = none

theorem count_succ (m : Machine) (property : Machine → Prop) [DecidablePred property] (n : Nat) :
    m.count property (n + 1) = m.count property n + if property (m.steps n) then 1 else 0 := by
  simp [count, List.range_succ, List.countP_append, List.countP_cons]

theorem span_eq_count (m : Machine) (n : Nat) :
    m.span n = n + m.count FeedsNext n + 2 * m.count Branches n + m.count Jumps n := by
  induction n with
  | zero => rfl
  | succ n ih =>
    rw [span_succ, ih, count_succ, count_succ, count_succ, delay]
    omega

theorem step_not_feedsNext {m : Machine} (unloaded : m.step.current? = none) : ¬ m.FeedsNext := by
  rintro ⟨i, -, -, -, next, there, -⟩
  simp [unloaded] at there

theorem current?_of_located? {m : Machine} {a : Word × Instruction} (here : m.located? = some a) :
    m.current? = some a.2 := (located?_eq_some_iff.mp here).2

theorem exists_located? {m : Machine} (loaded : m.current? ≠ none) : ∃ a, m.located? = some a := by
  obtain ⟨i, here⟩ := Option.ne_none_iff_exists'.mp loaded
  exact ⟨(m.pc, i), located?_eq_some_iff.mpr ⟨rfl, here⟩⟩

theorem feedsNext_iff {m : Machine} {a b : Instruction} (here : m.current? = some a)
    (next : m.step.current? = some b) :
    m.FeedsNext ↔ a.op = .lw ∧ a.rt ≠ 0 ∧ b.Reads a.rt := by
  simp [FeedsNext, here, next]

/-- The cycles from one instruction to the next one, `n` unloaded addresses behind it. -/
theorem span_between {m : Machine} {a b : Instruction} {i n : Nat}
    (here : (m.steps i).current? = some a)
    (unloaded : ∀ k < n, (m.steps (i + 1 + k)).current? = none)
    (next : (m.steps (i + 1 + n)).current? = some b) :
    m.span (i + 1 + n) = m.span i +
      (1 + (if n = 0 ∧ a.op = .lw ∧ a.rt ≠ 0 ∧ b.Reads a.rt then 1 else 0) +
        2 * (if (m.steps i).Branches then 1 else 0) +
        (if (m.steps i).Jumps then 1 else 0) + n) := by
  have feeds : (m.steps i).FeedsNext ↔ n = 0 ∧ a.op = .lw ∧ a.rt ≠ 0 ∧ b.Reads a.rt := by
    cases n with
    | zero =>
      have behind : (m.steps i).step.current? = some b := by rw [step_steps]; exact next
      rw [feedsNext_iff here behind, eq_self, true_and]
    | succ n =>
      have behind : (m.steps i).step.current? = none := by
        rw [step_steps]
        exact unloaded 0 (Nat.succ_pos n)
      simp [step_not_feedsNext behind]
  have idle : (m.steps (i + 1)).span n = n := span_of_unloaded fun k below => by
    rw [← steps_add]
    exact unloaded k below
  rw [span_add, span_succ, idle, delay]
  simp only [feeds]
  omega

theorem FallsOff.span {m : Machine} {n : Nat} (falls : m.FallsOff n) :
    m.span n + 1 = m.span (n + 1) := by
  have noLoad : ¬ (m.steps n).FeedsNext :=
    step_not_feedsNext (by rw [step_steps]; exact falls.unloaded)
  rw [span_succ, (delay_eq_zero_iff (m.steps n)).mpr ⟨noLoad, falls.straight, falls.onward⟩]

end Machine

namespace Simulator

/-- The instruction in writeback in a cycle of a run; cycles count from 1. -/
def writebackIn (s : Simulator) : Nat → Option (Word × Instruction)
  | 0 => none
  | n + 1 => (s.run n).latches.retiring

variable {s : Simulator}

/-- The instruction of a step is in writeback in the cycle of that step, and no other one is. -/
theorem writebackIn_iff (fresh : s.latches = {}) {c : Nat} {a : Word × Instruction} :
    s.writebackIn c = some a ↔
      ∃ k, c = 5 + s.machine.span k ∧ (s.machine.steps k).located? = some a := by
  cases c with
  | zero =>
    constructor
    · exact nofun
    · rintro ⟨k, now, -⟩
      omega
  | succ n =>
    have follows := (follows_of_fresh fresh).run n
    rw [writebackIn, follows.retiring, Paced.located?]
    constructor
    · intro inside
      have now : ((Paced.start s.machine).run n).rest = 0 :=
        Decidable.byContradiction fun resting => by simp [resting] at inside
      have cycle := (Paced.start s.machine).rest_run n
      rw [if_pos now, Paced.machine_run] at inside
      refine ⟨(Paced.start s.machine).taken n, ?_, inside⟩
      rw [now] at cycle
      simp only [Paced.start] at cycle ⊢
      omega
    · rintro ⟨k, now, inside⟩
      have cycle : n = 4 + s.machine.span k := by omega
      rw [cycle, Paced.run_start]
      exact inside

theorem retired_span (fresh : s.latches = {}) (k : Nat) :
    s.retired (5 + s.machine.span k) = s.machine.executed (k + 1) := by
  have cycle : 5 + s.machine.span k = 4 + s.machine.span k + 1 := by omega
  rw [cycle, (follows_of_fresh fresh).retired, Paced.taken_start]
  rfl

theorem unloaded_of_quiet (fresh : s.latches = {}) {c d k : Nat}
    (quiet : ∀ e, c < e → e < d → s.writebackIn e = none) (after : c < 5 + s.machine.span k)
    (before : 5 + s.machine.span k < d) : (s.machine.steps k).current? = none := by
  -- An instruction there would be in writeback between the two cycles.
  refine Decidable.byContradiction fun loaded => ?_
  obtain ⟨a, here⟩ := Machine.exists_located? loaded
  have inside := (writebackIn_iff fresh).mpr ⟨k, rfl, here⟩
  simp [quiet _ after before] at inside

/-- The cost of a run, for its instructions one by one and for the whole program. -/
structure CycleCosts (s : Simulator) : Prop where
  /-- Every instruction that the sequential machine executes gets to writeback. -/
  arrives : ∀ k a, (s.machine.steps k).located? = some a →
    ∃ c, s.writebackIn c = some a ∧ s.retired c = s.machine.executed (k + 1)
  /-- The first instruction is in writeback in the fifth cycle, or later by the `n` unloaded
  addresses in front of it. -/
  first : ∀ c a, s.writebackIn c = some a → (∀ e < c, s.writebackIn e = none) →
    ∃ n, c = 5 + n ∧ (∀ i < n, (s.machine.steps i).current? = none) ∧
      (s.machine.steps n).located? = some a
  /-- Between two instructions are the cycles that the older one loses and the `n` unloaded
  addresses between them. -/
  next : ∀ c d a b, c < d → s.writebackIn c = some a → s.writebackIn d = some b →
    (∀ e, c < e → e < d → s.writebackIn e = none) →
    ∃ i n, (s.machine.steps i).located? = some a ∧
      (∀ k < n, (s.machine.steps (i + 1 + k)).current? = none) ∧
      (s.machine.steps (i + 1 + n)).located? = some b ∧
      s.retired c = s.machine.executed (i + 1) ∧
      d = c + (1 + (if n = 0 ∧ a.2.op = .lw ∧ a.2.rt ≠ 0 ∧ b.2.Reads a.2.rt then 1 else 0) +
        2 * (if (s.machine.steps i).Branches then 1 else 0) +
        (if (s.machine.steps i).Jumps then 1 else 0) + n)
  /-- A program of `n + 1` instructions that falls off its end takes so many cycles and four more,
  besides those lost; with nothing loaded behind it the pipeline is then drained, not before. -/
  total : ∀ n, s.machine.FallsOff n →
    ∃ c, c = n + 1 + 4 + s.machine.count Machine.FeedsNext (n + 1) +
        2 * s.machine.count Machine.Branches (n + 1) + s.machine.count Machine.Jumps (n + 1) ∧
      s.writebackIn c = (s.machine.steps n).located? ∧
      s.retired c = s.machine.executed (n + 1) ∧
      ((∀ j ≤ 4, s.machine.code.fetch ((s.machine.steps (n + 1)).pc + Word.ofIndex j) = none) →
        (s.run c).IsDrained ∧ ∀ t < c, ¬ (s.run t).IsDrained)

theorem cycleCosts_of_fresh {s : Simulator} (fresh : s.latches = {}) : s.CycleCosts where
  arrives := fun k _ here =>
    ⟨_, (writebackIn_iff fresh).mpr ⟨k, rfl, here⟩, retired_span fresh k⟩
  first := by
    intro c a first quiet
    obtain ⟨n, rfl, here⟩ := (writebackIn_iff fresh).mp first
    have unloaded : ∀ i < n, (s.machine.steps i).current? = none := by
      intro i less
      have before := s.machine.span_lt_span less
      exact unloaded_of_quiet fresh (c := 0) (fun e _ early => quiet e early) (by omega)
        (Nat.add_lt_add_left before 5)
    exact ⟨n, by rw [Machine.span_of_unloaded unloaded], unloaded, here⟩
  next := by
    intro c d a b less first second quiet
    obtain ⟨i, rfl, here⟩ := (writebackIn_iff fresh).mp first
    obtain ⟨j, rfl, there⟩ := (writebackIn_iff fresh).mp second
    have behind : i + 1 ≤ j := Nat.lt_of_not_le fun back => by
      have earlier := s.machine.span_le_span back
      omega
    obtain ⟨n, rfl⟩ := Nat.exists_eq_add_of_le behind
    have unloaded : ∀ k < n, (s.machine.steps (i + 1 + k)).current? = none := by
      intro k below
      have after : s.machine.span i < s.machine.span (i + 1 + k) :=
        s.machine.span_lt_span (by omega)
      have before : s.machine.span (i + 1 + k) < s.machine.span (i + 1 + n) :=
        s.machine.span_lt_span (by omega)
      exact unloaded_of_quiet fresh quiet (Nat.add_lt_add_left after 5)
        (Nat.add_lt_add_left before 5)
    refine ⟨i, n, here, unloaded, there, retired_span fresh i, ?_⟩
    have cost := Machine.span_between (Machine.current?_of_located? here) unloaded
      (Machine.current?_of_located? there)
    rw [cost, ← Nat.add_assoc 5]
  total := by
    intro n falls
    have counts := s.machine.span_eq_count (n + 1)
    have last := falls.span
    obtain ⟨a, here⟩ := Machine.exists_located? (falls.loaded n (Nat.le_refl n))
    refine ⟨5 + s.machine.span n, by omega, ?_, retired_span fresh n, fun halted => ⟨?_, ?_⟩⟩
    · rw [here]
      exact (writebackIn_iff fresh).mpr ⟨n, rfl, here⟩
    · have drained := drained_of_halted fresh halted
      have cycle : 4 + s.machine.span (n + 1) = 5 + s.machine.span n := by omega
      rwa [cycle] at drained
    · intro t early drained
      exact absurd (late_of_drained fresh falls.loaded drained) (Nat.not_le_of_lt early)

theorem cycleCosts_loadUse :
    ∃ s report,
      (ofSettings { codeWords := 16, dataWords := 4 }).loadWords Demo.loadUse.words 0 =
        .ok (s, report) ∧
      s.machine.FallsOff 6 ∧ s.CycleCosts := by
  refine ⟨_, _, rfl, ⟨?_, ?_, ?_, ?_⟩, cycleCosts_of_fresh rfl⟩ <;> decide

end Simulator

end MipsPipeline
