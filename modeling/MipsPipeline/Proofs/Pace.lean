import MipsPipeline.Sequential

/-
The sequential machine at the pace of the pipeline: it executes what the sequential machine
executes, but rests between two steps for as many cycles as the pipeline loses between them. A
load loses one cycle to an instruction that reads the loaded register right behind it, a taken
branch or a jump through a register loses two, a jump to a fixed target one.
-/
namespace MipsPipeline

namespace Machine

/-- A load at the program counter feeds the instruction that comes next. -/
def FeedsNext (m : Machine) : Prop :=
  ∃ i ∈ m.current?, i.op = .lw ∧ i.rt ≠ 0 ∧ ∃ next ∈ m.step.current?, next.Reads i.rt

instance (m : Machine) : Decidable m.FeedsNext :=
  inferInstanceAs (Decidable (∃ i ∈ m.current?, _ ∧ _ ∧ ∃ next ∈ m.step.current?, _))

/-- A conditional branch at the program counter is taken, or there is a jump through a register. -/
def Branches (m : Machine) : Prop :=
  ∃ i ∈ m.current?, i.op = .jr ∨
    (i.op = .beq ∧ m.registers.read i.rs = m.registers.read i.rt) ∨
    (i.op = .bne ∧ m.registers.read i.rs ≠ m.registers.read i.rt)

instance (m : Machine) : Decidable m.Branches :=
  inferInstanceAs (Decidable (∃ i ∈ m.current?, _ ∨ (_ ∧ _) ∨ (_ ∧ _)))

/-- There is a jump to a fixed target at the program counter. -/
def Jumps (m : Machine) : Prop := ∃ i ∈ m.current?, i.op = .j ∨ i.op = .jal

instance (m : Machine) : Decidable m.Jumps :=
  inferInstanceAs (Decidable (∃ i ∈ m.current?, _ ∨ _))

/-- The cycles lost between this step and the next one. -/
def delay (m : Machine) : Nat :=
  (if m.FeedsNext then 1 else 0) + 2 * (if m.Branches then 1 else 0) + if m.Jumps then 1 else 0

/-- The cycles from a step to the one `k` steps later. -/
def span : Nat → Machine → Nat
  | 0, _ => 0
  | k + 1, m => 1 + m.delay + span k m.step

/-- The instruction at the program counter, with its address. -/
def located? (m : Machine) : Option (Word × Instruction) := m.current?.map (m.pc, ·)

/-- The instructions executed in `n` steps, in order. -/
def executed : Nat → Machine → List (Word × Instruction)
  | 0, _ => []
  | n + 1, m => m.located?.toList ++ executed n m.step

theorem located?_eq_some_iff {m : Machine} {x : Word × Instruction} :
    m.located? = some x ↔ m.pc = x.1 ∧ m.current? = some x.2 := by
  rw [located?]
  cases m.current? <;> simp [Prod.ext_iff]

theorem step_of_current {m : Machine} {i : Instruction} (here : m.current? = some i) :
    m.step = m.apply (i.effect m.pc m.registers m.data) := by simp [step, here]

theorem step_of_unloaded {m : Machine} (unloaded : m.current? = none) :
    m.step = { m with pc := m.pc.next } := by
  simp [step, unloaded]

@[simp] theorem code_step (m : Machine) : m.step.code = m.code := by
  unfold step
  split <;> rfl

@[simp] theorem code_steps (m : Machine) (n : Nat) : (m.steps n).code = m.code := by
  induction n generalizing m with
  | zero => rfl
  | succ n ih => rw [steps, ih, code_step]

theorem delay_of_unloaded {m : Machine} (unloaded : m.current? = none) : m.delay = 0 := by
  simp [delay, FeedsNext, Branches, Jumps, unloaded]

theorem Branches.not_jumps {m : Machine} (branches : m.Branches) : ¬ m.Jumps := by
  rintro ⟨j, there, jump⟩
  obtain ⟨i, here, branch⟩ := branches
  obtain rfl : i = j := Option.some.inj (here.symm.trans there)
  rcases jump with jump | jump <;> simp [jump] at branch

theorem FeedsNext.not_branches {m : Machine} (feeds : m.FeedsNext) : ¬ m.Branches := by
  rintro ⟨j, there, branch⟩
  obtain ⟨i, here, load, -⟩ := feeds
  obtain rfl : i = j := Option.some.inj (here.symm.trans there)
  simp [load] at branch

theorem FeedsNext.not_jumps {m : Machine} (feeds : m.FeedsNext) : ¬ m.Jumps := by
  rintro ⟨j, there, jump⟩
  obtain ⟨i, here, load, -⟩ := feeds
  obtain rfl : i = j := Option.some.inj (here.symm.trans there)
  simp [load] at jump

theorem delay_of_branches {m : Machine} (branches : m.Branches) : m.delay = 2 := by
  have noFeed : ¬ m.FeedsNext := fun feeds => feeds.not_branches branches
  simp [delay, noFeed, branches, branches.not_jumps]

theorem delay_of_feedsNext {m : Machine} (feeds : m.FeedsNext) : m.delay = 1 := by
  simp [delay, feeds, feeds.not_branches, feeds.not_jumps]

theorem delay_of_jumps {m : Machine} (jumps : m.Jumps) : m.delay = 1 := by
  have noFeed : ¬ m.FeedsNext := fun feeds => feeds.not_jumps jumps
  have noBranch : ¬ m.Branches := fun branches => branches.not_jumps jumps
  simp [delay, noFeed, noBranch, jumps]

theorem delay_eq_zero_iff (m : Machine) :
    m.delay = 0 ↔ ¬ m.FeedsNext ∧ ¬ m.Branches ∧ ¬ m.Jumps := by
  simp only [delay]
  split <;> split <;> split <;> simp_all

theorem delay_le_two (m : Machine) : m.delay ≤ 2 := by
  by_cases branches : m.Branches
  · exact Nat.le_of_eq (delay_of_branches branches)
  by_cases feeds : m.FeedsNext
  · rw [delay_of_feedsNext feeds]
    decide
  by_cases jumps : m.Jumps
  · rw [delay_of_jumps jumps]
    decide
  · rw [(delay_eq_zero_iff m).mpr ⟨feeds, branches, jumps⟩]
    decide

theorem steps_add (m : Machine) (j k : Nat) : m.steps (j + k) = (m.steps j).steps k := by
  induction j generalizing m with
  | zero => rw [Nat.zero_add]; rfl
  | succ j ih => rw [Nat.succ_add]; exact ih m.step

theorem step_steps (m : Machine) (k : Nat) : (m.steps k).step = m.steps (k + 1) :=
  (m.steps_add k 1).symm

theorem span_add (m : Machine) (j k : Nat) : m.span (j + k) = m.span j + (m.steps j).span k := by
  induction j generalizing m with
  | zero => rw [Nat.zero_add, span, Nat.zero_add]; rfl
  | succ j ih =>
    rw [Nat.succ_add, span, span, ih m.step, ← Nat.add_assoc]
    rfl

theorem span_succ (m : Machine) (k : Nat) : m.span (k + 1) = m.span k + 1 + (m.steps k).delay := by
  rw [span_add, span, span]
  omega

theorem span_lt_span (m : Machine) {j k : Nat} (less : j < k) : m.span j < m.span k := by
  obtain ⟨d, rfl⟩ := Nat.exists_eq_add_of_lt less
  rw [Nat.add_assoc, span_add, span]
  omega

theorem span_le_span (m : Machine) {j k : Nat} (le : j ≤ k) : m.span j ≤ m.span k := by
  rcases Nat.eq_or_lt_of_le le with rfl | less
  · exact Nat.le_refl _
  · exact Nat.le_of_lt (m.span_lt_span less)

theorem span_of_unloaded {m : Machine} {n : Nat}
    (unloaded : ∀ i < n, (m.steps i).current? = none) : m.span n = n := by
  induction n with
  | zero => rfl
  | succ n ih =>
    have before := ih fun i less => unloaded i (Nat.lt_succ_of_lt less)
    rw [span_succ, before, delay_of_unloaded (unloaded n (Nat.lt_succ_self n))]

end Machine

/-- A sequential machine and the cycles it still rests before its next step. -/
structure Paced where
  machine : Machine
  rest : Nat

namespace Paced

/-- The first step comes in the fifth cycle, when the first instruction is in writeback. -/
def start (m : Machine) : Paced := ⟨m, 4⟩

def tick : Paced → Paced
  | ⟨m, 0⟩ => ⟨m.step, m.delay⟩
  | ⟨m, rest + 1⟩ => ⟨m, rest⟩

def run : Nat → Paced → Paced
  | 0, p => p
  | n + 1, p => run n p.tick

/-- The steps taken in `n` ticks. -/
def taken : Nat → Paced → Nat
  | 0, _ => 0
  | n + 1, p => taken n p.tick + if p.rest = 0 then 1 else 0

variable {p : Paced}

theorem tick_of_step (now : p.rest = 0) : p.tick = ⟨p.machine.step, p.machine.delay⟩ := by
  obtain ⟨m, rest⟩ := p
  subst now
  rfl

theorem tick_of_rest {n : Nat} (resting : p.rest = n + 1) : p.tick = ⟨p.machine, n⟩ := by
  obtain ⟨m, rest⟩ := p
  subst resting
  rfl

theorem machine_tick_of_rest (resting : p.rest ≠ 0) : p.tick.machine = p.machine := by
  obtain ⟨n, more⟩ := Nat.exists_eq_succ_of_ne_zero resting
  rw [tick_of_rest more]

@[simp] theorem code_tick (p : Paced) : p.tick.machine.code = p.machine.code := by
  by_cases now : p.rest = 0
  · simp [tick_of_step now]
  · rw [machine_tick_of_rest now]

theorem run_add (p : Paced) (j k : Nat) : p.run (j + k) = (p.run j).run k := by
  induction j generalizing p with
  | zero => rw [Nat.zero_add]; rfl
  | succ j ih => rw [Nat.succ_add]; exact ih p.tick

theorem tick_run (p : Paced) (n : Nat) : (p.run n).tick = p.run (n + 1) := (p.run_add n 1).symm

theorem machine_run (p : Paced) (n : Nat) :
    (p.run n).machine = p.machine.steps (p.taken n) := by
  induction n generalizing p with
  | zero => rfl
  | succ n ih =>
    rw [run, ih p.tick, taken]
    by_cases now : p.rest = 0
    · rw [tick_of_step now, if_pos now]
      rfl
    · rw [machine_tick_of_rest now, if_neg now, Nat.add_zero]

/-- The next step comes after the rest and all the cycles of the steps before it. -/
theorem rest_run (p : Paced) (n : Nat) :
    n + (p.run n).rest = p.rest + p.machine.span (p.taken n) := by
  induction n generalizing p with
  | zero => simp [run, taken, Machine.span]
  | succ n ih =>
    have later := ih p.tick
    rw [run, taken]
    by_cases now : p.rest = 0
    · rw [tick_of_step now] at later ⊢
      rw [if_pos now, now, Machine.span]
      simp only at later
      omega
    · obtain ⟨rest, more⟩ := Nat.exists_eq_succ_of_ne_zero now
      rw [tick_of_rest more] at later ⊢
      rw [if_neg now, more, Nat.add_zero (taken n _)]
      simp only at later
      omega

theorem lt_taken_iff (p : Paced) (n k : Nat) :
    k < p.taken n ↔ p.rest + p.machine.span k < n := by
  induction n generalizing p k with
  | zero => simp [taken]
  | succ n ih =>
    rw [taken]
    by_cases now : p.rest = 0
    · rw [if_pos now, now]
      cases k with
      | zero => simp [Machine.span]
      | succ k =>
        have earlier := ih p.tick k
        rw [tick_of_step now] at earlier ⊢
        rw [Machine.span]
        simp only at earlier
        omega
    · obtain ⟨rest, more⟩ := Nat.exists_eq_succ_of_ne_zero now
      have later := ih p.tick k
      rw [tick_of_rest more] at later ⊢
      rw [if_neg now, more]
      simp only at later
      omega

theorem taken_eq (p : Paced) {n k : Nat} (before : ∀ i < k, p.rest + p.machine.span i < n)
    (after : n ≤ p.rest + p.machine.span k) : p.taken n = k := by
  refine Nat.le_antisymm (Nat.le_of_not_lt fun more => ?_) (Nat.le_of_not_lt fun less => ?_)
  · exact absurd after (Nat.not_le_of_lt ((p.lt_taken_iff n k).mp more))
  · exact Nat.lt_irrefl _ ((p.lt_taken_iff n _).mpr (before _ less))

/-- The cycle of a step is the one before which just the steps in front of it are taken. -/
theorem run_span (p : Paced) (k : Nat) :
    p.run (p.rest + p.machine.span k) = ⟨p.machine.steps k, 0⟩ := by
  have taken : p.taken (p.rest + p.machine.span k) = k :=
    p.taken_eq (fun _ less => Nat.add_lt_add_left (p.machine.span_lt_span less) _) (Nat.le_refl _)
  have machine := p.machine_run (p.rest + p.machine.span k)
  have rest := p.rest_run (p.rest + p.machine.span k)
  rw [taken] at machine rest
  have now : (p.run (p.rest + p.machine.span k)).rest = 0 := by omega
  rw [← machine, ← now]

theorem taken_span_succ (p : Paced) (k : Nat) :
    p.taken (p.rest + p.machine.span k + 1) = k + 1 := by
  apply p.taken_eq
  · intro i less
    have earlier := p.machine.span_le_span (Nat.le_of_lt_succ less)
    omega
  · have next := p.machine.span_succ k
    omega

theorem run_start (m : Machine) (k : Nat) : (start m).run (4 + m.span k) = ⟨m.steps k, 0⟩ :=
  (start m).run_span k

theorem taken_start (m : Machine) (k : Nat) : (start m).taken (4 + m.span k + 1) = k + 1 :=
  (start m).taken_span_succ k

end Paced

end MipsPipeline
