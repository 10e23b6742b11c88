import MipsPipeline.Proofs.Address
import MipsPipeline.Proofs.Refinement

/-
A program that comes to an end leaves the pipeline. While instructions remain, one of them is in a
latch or about to be fetched, so the pipeline cannot count as drained too early; when the last one
is over and nothing is loaded where fetch has got to, every latch is empty.
-/
namespace MipsPipeline

namespace Machine

theorem steps_of_unloaded {m : Machine} {n : Nat}
    (unloaded : ∀ i < n, m.code.fetch (m.pc + Word.ofIndex i) = none) :
    m.steps n = { m with pc := m.pc + Word.ofIndex n } := by
  induction n with
  | zero => rw [Word.add_ofIndex_zero]; rfl
  | succ n ih =>
    have before := ih fun i less => unloaded i (Nat.lt_succ_of_lt less)
    have here : (m.steps n).current? = none := by
      rw [before]
      exact unloaded n (Nat.lt_succ_self n)
    rw [← step_steps, step_of_unloaded here, before]
    simp only [Word.next_add_ofIndex]

theorem current?_steps_of_unloaded {m : Machine} {n : Nat}
    (unloaded : ∀ i ≤ n, m.code.fetch (m.pc + Word.ofIndex i) = none) :
    (m.steps n).current? = none := by
  rw [steps_of_unloaded fun i less => unloaded i (Nat.le_of_lt less)]
  exact unloaded n (Nat.le_refl n)

theorem span_le (m : Machine) (k : Nat) : m.span k ≤ 3 * k := by
  induction k generalizing m with
  | zero => exact Nat.le_refl 0
  | succ k ih =>
    have rest := ih m.step
    have delay := m.delay_le_two
    rw [span]
    omega

theorem length_executed {m : Machine} {k : Nat}
    (loaded : ∀ i < k, (m.steps i).current? ≠ none) : (m.executed k).length = k := by
  induction k generalizing m with
  | zero => rfl
  | succ k ih =>
    obtain ⟨i, here⟩ := Option.ne_none_iff_exists'.mp (loaded 0 (Nat.succ_pos k))
    have rest := ih (m := m.step) fun i less => loaded (i + 1) (Nat.succ_lt_succ less)
    have first : m.current? = some i := here
    rw [executed, List.length_append, rest, located?, first, Nat.add_comm]
    rfl

end Machine

namespace Paced

theorem rest_tick_le {p : Paced} (few : p.rest ≤ 4) : p.tick.rest ≤ 4 := by
  obtain ⟨m, rest⟩ := p
  cases rest with
  | zero => exact Nat.le_trans m.delay_le_two (by decide)
  | succ rest => exact Nat.le_of_succ_le few

theorem rest_run_le {p : Paced} (few : p.rest ≤ 4) (n : Nat) : (p.run n).rest ≤ 4 := by
  induction n generalizing p with
  | zero => exact few
  | succ n ih => exact ih (rest_tick_le few)

namespace Fills

variable {α : Type} {p : Paced} {carries : Machine → Instruction → α → Prop} {slot : Slot α}

theorem eq_empty (fills : p.Fills carries slot) (now : p.rest = 0)
    (unloaded : p.machine.current? = none) : slot = .empty := by
  cases slot with
  | empty => rfl
  | bubble => exact absurd now fills
  | valid entry =>
    obtain ⟨-, i, here, -⟩ := fills
    simp [here] at unloaded

theorem not_isEmpty (fills : p.Fills carries slot) (now : p.rest = 0)
    (loaded : p.machine.current? ≠ none) : ¬ slot.IsEmpty := by
  obtain ⟨i, here⟩ := Option.ne_none_iff_exists'.mp loaded
  obtain ⟨entry, rfl, -⟩ := fills.exists_entry now here
  exact id

end Fills

theorem run_of_unloaded {p : Paced} {n : Nat} (now : p.rest = 0)
    (unloaded : ∀ i < n, (p.machine.steps i).current? = none) :
    p.run n = ⟨p.machine.steps n, 0⟩ := by
  have cycle := p.run_span n
  rwa [now, Nat.zero_add, Machine.span_of_unloaded unloaded] at cycle

end Paced

namespace Machine

variable {m : Machine}

theorem fetch_of_unloaded (unloaded : m.current? = none) : m.fetch = .empty := by
  rw [fetch, unloaded]

theorem not_isEmpty_fetch (loaded : m.current? ≠ none) : ¬ m.fetch.IsEmpty := by
  obtain ⟨i, here⟩ := Option.ne_none_iff_exists'.mp loaded
  rw [fetch, here]
  exact id

end Machine

theorem Front.of_unloaded {p : Paced} {pc : Word} {ifId : Slot Fetched}
    (front : Front p pc ifId) (now : p.rest = 0) (unloaded : p.machine.current? = none)
    (onward : p.machine.step.current? = none) :
    ifId = .empty ∧ pc = p.machine.step.pc.next := by
  have tick : p.tick = ⟨p.machine.step, 0⟩ := by
    rw [Paced.tick_of_step now, Machine.delay_of_unloaded unloaded]
  cases front with
  | ready _ held next =>
    rw [tick] at held next
    exact ⟨held.trans (Machine.fetch_of_unloaded onward), next⟩
  | stalled _ feeds =>
    obtain ⟨i, here, -⟩ := feeds
    simp [unloaded] at here
  | refilling soon => simp [tick] at soon
  | squashing _ branches =>
    obtain ⟨i, here, -⟩ := branches
    simp [unloaded] at here

namespace Follows

variable {p : Paced} {m : Machine} {l : Latches}

theorem current?_eq (follows : Follows p m l) {other : Machine}
    (code : other.code = p.machine.code) (pc : m.pc = other.pc) :
    m.current? = other.current? := by
  simp only [Machine.current?, follows.code, code, pc]

theorem drained_of_unloaded (follows : Follows p m l) (now : p.rest = 0)
    (unloaded : ∀ i ≤ 4, (p.machine.steps i).current? = none) :
    l.AllEmpty ∧ m.current? = none := by
  -- Each stage is a word ahead of the next one, and fetch is four words ahead of writeback.
  have ahead (i : Nat) (few : i ≤ 4) : p.run i = ⟨p.machine.steps i, 0⟩ :=
    Paced.run_of_unloaded now fun j less => unloaded j (Nat.le_trans (Nat.le_of_lt less) few)
  have inMemory : p.tick = ⟨p.machine.steps 1, 0⟩ := ahead 1 (by decide)
  have inExecute : p.tick.tick = ⟨p.machine.steps 2, 0⟩ := ahead 2 (by decide)
  have memWb := follows.memWb.eq_empty now (unloaded 0 (by decide))
  have exMem := follows.exMem
  have idEx := follows.idEx
  have front := follows.front
  rw [inMemory] at exMem
  rw [inExecute] at idEx front
  obtain ⟨ifId, pc⟩ :=
    front.of_unloaded rfl (unloaded 2 (by decide)) (unloaded 3 (by decide))
  constructor
  · rw [Latches.AllEmpty, ifId, memWb, exMem.eq_empty rfl (unloaded 1 (by decide)),
      idEx.eq_empty rfl (unloaded 2 (by decide))]
    exact ⟨trivial, trivial, trivial, trivial⟩
  · have moves := Machine.step_of_unloaded (unloaded 3 (by decide))
    have last : m.pc = (p.machine.steps 4).pc := pc.trans (congrArg Machine.pc moves).symm
    rw [follows.current?_eq (p.machine.code_steps 4) last]
    exact unloaded 4 (by decide)

theorem not_drained_of_loaded (follows : Follows p m l) (few : p.rest ≤ 4)
    (loaded : p.machine.current? ≠ none) : ¬ (l.AllEmpty ∧ m.current? = none) := by
  obtain ⟨q, rest⟩ := p
  rintro ⟨⟨ifId, idEx, exMem, memWb⟩, nothing⟩
  have front := follows.front
  -- The rest tells where the next instruction is: from writeback back to where it is fetched.
  match rest, few with
  | 0, _ => exact follows.memWb.not_isEmpty rfl loaded memWb
  | 1, _ => exact follows.exMem.not_isEmpty rfl loaded exMem
  | 2, _ => exact follows.idEx.not_isEmpty rfl loaded idEx
  | 3, _ =>
    cases front with
    | ready _ held next =>
      rw [held] at ifId
      exact Machine.not_isEmpty_fetch loaded ifId
    | stalled now => exact absurd now (Nat.succ_ne_zero 0)
    | refilling soon => exact absurd soon (Nat.zero_ne_one)
    | squashing now => exact absurd now (Nat.succ_ne_zero 0)
  | 4, _ =>
    cases front with
    | ready now => exact absurd now (Nat.succ_ne_zero 0)
    | stalled now => exact absurd now (Nat.succ_ne_zero 1)
    | refilling _ _ next => exact loaded ((follows.current?_eq rfl next).symm.trans nothing)
    | squashing now => exact absurd now (Nat.succ_ne_zero 1)

end Follows

namespace Simulator

/-- A run until drained is a run that stops at the first drained state, if it meets one in time. -/
theorem runUntilDrained_eq_run (s : Simulator) (max : Nat) :
    ∃ n ≤ max, s.runUntilDrained max = s.run n ∧ (∀ i < n, ¬ (s.run i).IsDrained) ∧
      ((s.run n).IsDrained ∨ n = max) := by
  induction max generalizing s with
  | zero => exact ⟨0, Nat.le_refl 0, rfl, nofun, .inr rfl⟩
  | succ max ih =>
    by_cases drained : s.IsDrained
    · exact ⟨0, Nat.zero_le _, if_pos drained, nofun, .inl drained⟩
    · obtain ⟨n, within, stops, before, last⟩ := ih s.step
      refine ⟨n + 1, Nat.succ_le_succ within, (if_neg drained).trans stops, ?_,
        last.imp_right (congrArg Nat.succ)⟩
      intro i less
      cases i with
      | zero => exact drained
      | succ i => exact before i (Nat.lt_of_succ_lt_succ less)

section

variable {s : Simulator} {k : Nat}

/-- After the last instruction has left, with nothing loaded behind it, the pipeline is drained. -/
theorem drained_of_halted (fresh : s.latches = {})
    (halted : ∀ j ≤ 4, s.machine.code.fetch ((s.machine.steps k).pc + Word.ofIndex j) = none) :
    (s.run (4 + s.machine.span k)).IsDrained := by
  have follows := (follows_of_fresh fresh).run (4 + s.machine.span k)
  rw [Paced.run_start] at follows
  refine follows.drained_of_unloaded rfl fun i few => ?_
  apply Machine.current?_steps_of_unloaded
  intro j le
  rw [Machine.code_steps]
  exact halted j (Nat.le_trans le few)

theorem le_taken_of_drained (fresh : s.latches = {})
    (loaded : ∀ i < k, (s.machine.steps i).current? ≠ none) {n : Nat}
    (drained : (s.run n).IsDrained) : k ≤ (Paced.start s.machine).taken n := by
  refine Nat.le_of_not_lt fun early => ?_
  have follows := (follows_of_fresh fresh).run n
  have few := Paced.rest_run_le (p := .start s.machine) (Nat.le_refl 4) n
  refine follows.not_drained_of_loaded few ?_ drained
  rw [Paced.machine_run]
  exact loaded _ early

/-- It cannot be drained before the last instruction has been in writeback. -/
theorem late_of_drained (fresh : s.latches = {})
    (loaded : ∀ i ≤ k, (s.machine.steps i).current? ≠ none) {n : Nat}
    (drained : (s.run n).IsDrained) : 5 + s.machine.span k ≤ n := by
  have all := le_taken_of_drained fresh (fun i less => loaded i (Nat.le_of_lt_succ less)) drained
  have past : 4 + s.machine.span k < n := (Paced.lt_taken_iff _ _ _).mp all
  omega

theorem result_of_drained (fresh : s.latches = {})
    (loaded : ∀ i < k, (s.machine.steps i).current? ≠ none) {n : Nat}
    (drained : (s.run n).IsDrained) (early : n ≤ 4 + s.machine.span k) :
    s.retired n = s.machine.executed k ∧
      (s.run n).machine.registers = (s.machine.steps k).registers ∧
      (s.run n).machine.data = (s.machine.steps k).data := by
  have follows := follows_of_fresh fresh
  have taken : (Paced.start s.machine).taken n = k := by
    refine Nat.le_antisymm (Nat.le_of_not_lt fun more => ?_)
      (le_taken_of_drained fresh loaded drained)
    exact absurd early (Nat.not_le_of_lt ((Paced.lt_taken_iff _ _ _).mp more))
  have latches := (Latches.allEmpty_iff _).mp drained.1
  have inWriteback := (follows.run n).memWb
  rw [latches] at inWriteback
  refine ⟨?_, ?_, ?_⟩
  · rw [follows.retired, taken]
    rfl
  · rw [follows.registers_run, taken]
    rfl
  · rw [(follows.run n).data, inWriteback.tick_eq_of_no_entry rfl Machine.data fun _ _ => rfl,
      Paced.machine_run, taken]
    rfl

end

/-- A simulator as a successful load leaves it. -/
inductive JustLoaded : Simulator → Prop where
  | text {before s : Simulator} {format : SourceFormat} {text : List Char} {start : Word}
      {report : LoadReport} (done : before.load format text start = .ok (s, report)) : JustLoaded s
  | words {before s : Simulator} {words : List Word} {start : Word} {report : LoadReport}
      (done : before.loadWords words start = .ok (s, report)) : JustLoaded s

theorem latches_restart {s t : Simulator} {loaded : Except LoadError (Machine × LoadReport)}
    {report : LoadReport} (done : loaded.map s.restart = .ok (t, report)) : t.latches = {} := by
  cases loaded with
  | error cause => simp [Except.map] at done
  | ok machine =>
    simp only [Except.map, restart, Except.ok.injEq, Prod.mk.injEq] at done
    rw [← done.1]

theorem JustLoaded.fresh {s : Simulator} (loaded : s.JustLoaded) : s.latches = {} := by
  cases loaded with
  | text done => exact latches_restart done
  | words done => exact latches_restart done

/-- A program of `k` instructions, behind which nothing is loaded for five words, drains within
three cycles for each instruction and four more, with the results of the sequential machine. -/
theorem runUntilDrained_of_halts {s : Simulator} (loaded : s.JustLoaded) {k max : Nat}
    (executes : ∀ i < k, (s.machine.steps i).current? ≠ none)
    (halts : ∀ j ≤ 4,
      s.machine.code.fetch ((s.machine.steps k).pc + Word.ofIndex j) = none)
    (enough : 3 * k + 4 ≤ max) :
    ∃ n ≤ 3 * k + 4,
      s.runUntilDrained max = s.run n ∧
      (s.run n).IsDrained ∧
      s.retired n = s.machine.executed k ∧
      (s.run n).statistics.retired = s.statistics.retired + k ∧
      (s.run n).machine.registers = (s.machine.steps k).registers ∧
      (s.run n).machine.data = (s.machine.steps k).data := by
  have last := drained_of_halted loaded.fresh halts
  have bound := s.machine.span_le k
  obtain ⟨n, within, stops, before, done⟩ := s.runUntilDrained_eq_run max
  -- It stops sooner behind a jump or a taken branch that has squashed unloaded words.
  have early : n ≤ 4 + s.machine.span k := Nat.le_of_not_lt fun late => before _ late last
  have drained : (s.run n).IsDrained := by
    rcases done with drained | full
    · exact drained
    · have same : n = 4 + s.machine.span k := by omega
      rw [same]
      exact last
  obtain ⟨retired, registers, data⟩ := result_of_drained loaded.fresh executes drained early
  refine ⟨n, by omega, stops, drained, retired, ?_, registers, data⟩
  rw [s.statistics_run, retired, Machine.length_executed executes]

theorem runUntilDrained_of_halts_loadUse :
    ∃ s report,
      (ofSettings { codeWords := 16, dataWords := 4 }).loadWords Demo.loadUse.words 0 =
        .ok (s, report) ∧
      ∃ n ≤ 25,
        s.runUntilDrained 25 = s.run n ∧
        (s.run n).IsDrained ∧
        s.retired n = s.machine.executed 7 ∧
        (s.run n).statistics.retired = s.statistics.retired + 7 ∧
        (s.run n).machine.registers = (s.machine.steps 7).registers ∧
        (s.run n).machine.data = (s.machine.steps 7).data := by
  have done : (ofSettings { codeWords := 16, dataWords := 4 }).loadWords Demo.loadUse.words 0 =
      .ok (_, _) := rfl
  refine ⟨_, _, done, runUntilDrained_of_halts (k := 7) (.words done) ?_ ?_ ?_⟩
  · decide
  · decide
  · decide

end Simulator

end MipsPipeline
