import MipsPipeline.Proofs.Simulation
import MipsPipeline.Simulator.Basic

/-
A clock cycle moves the front of the pipeline in one of four ways: a stall, a redirect out of
execute, a jump out of decode, or the next fetch. With that, a cycle of a pipeline that follows a
paced machine is a tick of the paced machine, and so is every cycle of a run from empty latches.
-/
namespace MipsPipeline

namespace Latches

variable {l : Latches} {registers : RegisterFile}

theorem decode_stalled {f : Fetched} (valid : l.ifId = .valid f) (redirect : Option Word) :
    l.decode registers true redirect = .stalled (some (f.decode registers)) := by
  simp [decode, valid]

theorem entry?_decode_flushed {target : Word} :
    Slot.entry? (l.decode registers false (some target)).output = none := by
  unfold decode
  cases l.ifId <;> rfl

theorem output_decode_active :
    (l.decode registers false none).output = l.ifId.map (·.decode registers) := by
  unfold decode
  cases l.ifId <;> rfl

theorem jump?_decode_active :
    (l.decode registers false none).jump? = l.ifId.entry?.bind (·.decode registers |>.jump) := by
  unfold decode
  cases l.ifId <;> rfl

end Latches

namespace Machine

variable {m : Machine}

theorem entry?_intake_flushed {target : Word} :
    Slot.entry? (m.intake false (some target)).output = none := by
  unfold intake
  cases m.fetch <;> rfl

theorem output_intake_active : (m.intake false none).output = m.fetch := by
  unfold intake fetch
  cases m.current? <;> rfl

end Machine

namespace Cycle

variable {m : Machine} {l : Latches}

theorem front_of_stall (stall : LoadUse l.idEx l.ifId) :
    ((start m l).latches l).ifId = l.ifId ∧ ((start m l).latches l).idEx = .bubble ∧
      (start m l).pc m.pc = m.pc := by
  have ⟨_, _, f, inside, _⟩ := stall
  have valid := Slot.eq_valid inside
  simp [latches, pc, start, stall, Latches.decode_stalled valid, Activity.output, Slot.map]

theorem front_of_redirect {target : Word} (go : ¬ LoadUse l.idEx l.ifId)
    (redirect : l.execute.redirect? = some target) :
    Slot.entry? ((start m l).latches l).ifId = none ∧
      Slot.entry? ((start m l).latches l).idEx = none ∧ (start m l).pc m.pc = target := by
  rw [Latches.execute] at redirect
  simp [latches, pc, redirect?, start, go, redirect, Machine.entry?_intake_flushed,
    Latches.entry?_decode_flushed]

theorem idEx_of_no_redirect (go : ¬ LoadUse l.idEx l.ifId)
    (straight : l.execute.redirect? = none) :
    ((start m l).latches l).idEx =
      l.ifId.map fun f => (f.decode (l.memWb.retire m.registers)).entry := by
  rw [Latches.execute] at straight
  simp only [latches, start, go, straight, decide_false, Latches.output_decode_active]
  cases l.ifId <;> rfl

theorem front_of_jump {f : Fetched} {target : Word} (go : ¬ LoadUse l.idEx l.ifId)
    (straight : l.execute.redirect? = none) (valid : l.ifId = .valid f)
    (jump : (f.decode (l.memWb.retire m.registers)).jump = some target) :
    Slot.entry? ((start m l).latches l).ifId = none ∧ (start m l).pc m.pc = target := by
  rw [Latches.execute] at straight
  have jumping : l.ifId.entry?.bind (·.decode (l.memWb.retire m.registers) |>.jump) =
      some target := by rw [valid]; exact jump
  simp [latches, pc, redirect?, start, go, straight, Latches.jump?_decode_active, jumping,
    Machine.entry?_intake_flushed]

theorem front_of_fetch (go : ¬ LoadUse l.idEx l.ifId) (straight : l.execute.redirect? = none)
    (onward : ∀ f ∈ l.ifId.entry?, (f.decode (l.memWb.retire m.registers)).jump = none) :
    ((start m l).latches l).ifId = m.fetch ∧ (start m l).pc m.pc = m.pc.next := by
  rw [Latches.execute] at straight
  have noJump : l.ifId.entry?.bind (·.decode (l.memWb.retire m.registers) |>.jump) = none := by
    rw [Option.bind_eq_none_iff]
    exact onward
  simp [latches, pc, redirect?, start, go, straight, Latches.jump?_decode_active, noJump,
    Machine.output_intake_active]

end Cycle

namespace Follows

variable {p : Paced} {m : Machine} {l : Latches}

theorem fetch_of_pc {other : Machine} (code : m.code = other.code) (pc : m.pc = other.pc) :
    m.fetch = other.fetch := by
  simp only [Machine.fetch, Machine.current?, code, pc]

theorem fills_decode (now : p.rest = 0) (held : l.ifId = p.machine.fetch)
    (registers : RegisterFile) :
    p.Fills (Decoded.Carries registers) (l.ifId.map fun f => (f.decode registers).entry) := by
  rw [held]
  cases here : p.machine.current? with
  | none =>
    simp only [Machine.fetch, here]
    exact fun _ => here
  | some i =>
    simp only [Machine.fetch, here]
    exact ⟨now, i, here, rfl⟩

theorem jump_of_jumps {held : Machine} (inDecode : l.ifId = held.fetch) (jumps : held.Jumps)
    (registers : RegisterFile) :
    ∃ f, l.ifId = .valid f ∧ (f.decode registers).jump = some held.step.pc := by
  have ⟨i, here, _⟩ := jumps
  have jump := Fetched.jump_decode here registers
  rw [if_pos jumps] at jump
  exact ⟨⟨held.pc, i⟩, by rw [inDecode, Machine.fetch, Option.mem_def.mp here], jump⟩

theorem no_jump_of_not_jumps {held : Machine} (inDecode : l.ifId = held.fetch)
    (onward : ¬ held.Jumps) (registers : RegisterFile) :
    ∀ f ∈ l.ifId.entry?, (f.decode registers).jump = none := by
  intro f inside
  rw [inDecode, Machine.mem_fetch] at inside
  obtain ⟨pc, here⟩ := inside
  have jump := Fetched.jump_decode here registers
  rw [pc, if_neg onward] at jump
  exact jump

/-- What decode and fetch hand on is right for the paced machine `p` that is in decode next. -/
def Onward (p : Paced) (m : Machine) (l : Latches) : Prop :=
  p.Fills (Decoded.Carries (l.memWb.retire m.registers)) ((Cycle.start m l).latches l).idEx ∧
    Front p ((Cycle.start m l).pc m.pc) ((Cycle.start m l).latches l).ifId

theorem code_front (follows : Follows p m l) : m.code = p.tick.tick.tick.machine.code := by
  simpa using follows.code

theorem onward_of_stalled (follows : Follows p m l) (now : p.tick.tick.rest = 0)
    (feeds : p.tick.tick.machine.FeedsNext) (held : l.ifId = p.tick.tick.machine.step.fetch)
    (next : m.pc = p.tick.tick.machine.step.pc.next) : Onward p.tick.tick.tick m l := by
  have stall := (follows.loadUse_iff_feedsNext now held).mpr feeds
  obtain ⟨ifId, idEx, pc⟩ := Cycle.front_of_stall (m := m) stall
  have waits : p.tick.tick.tick = ⟨p.tick.tick.machine.step, 1⟩ := by
    rw [Paced.tick_of_step now, Machine.delay_of_feedsNext feeds]
  rw [waits, Onward, ifId, idEx, pc]
  exact ⟨Nat.one_ne_zero, .ready rfl held next⟩

theorem onward_of_squashing (follows : Follows p m l) (now : p.tick.tick.rest = 0)
    (branches : p.tick.tick.machine.Branches) : Onward p.tick.tick.tick m l := by
  have go := follows.no_stall_of_branches branches
  have redirect := follows.redirect_of_branches now branches
  obtain ⟨ifId, idEx, pc⟩ := Cycle.front_of_redirect (m := m) go redirect
  have waits : p.tick.tick.tick = ⟨p.tick.tick.machine.step, 2⟩ := by
    rw [Paced.tick_of_step now, Machine.delay_of_branches branches]
  rw [waits, Onward, pc]
  exact ⟨.of_rest (Nat.succ_ne_zero 1) idEx, .refilling rfl ifId rfl⟩

theorem onward_of_refilling (follows : Follows p m l) (soon : p.tick.tick.tick.rest = 1)
    (nothing : l.ifId.entry? = none) (next : m.pc = p.tick.tick.tick.machine.pc) :
    Onward p.tick.tick.tick m l := by
  have go := no_stall_of_nothing (l := l) nothing
  have straight : p.tick.tick.rest = 0 → ¬ p.tick.tick.machine.Branches := by
    intro now branches
    simp [Paced.tick_of_step now, Machine.delay_of_branches branches] at soon
  have noRedirect := follows.redirect_of_not_branches straight
  obtain ⟨ifId, pc⟩ := Cycle.front_of_fetch (m := m) go noRedirect (by simp [nothing])
  have idEx := Cycle.idEx_of_no_redirect (m := m) go noRedirect
  have fetched := fetch_of_pc follows.code_front next
  rw [Onward, ifId, pc, idEx]
  have wakes := Paced.tick_of_rest soon
  refine ⟨.of_rest (by simp [soon]) (by simp [nothing]), .ready ?_ ?_ ?_⟩
  · rw [wakes]
  · rw [wakes, fetched]
  · rw [wakes, next]

theorem onward_of_ready (follows : Follows p m l) (now : p.tick.tick.tick.rest = 0)
    (held : l.ifId = p.tick.tick.tick.machine.fetch)
    (next : m.pc = p.tick.tick.tick.machine.pc.next) : Onward p.tick.tick.tick m l := by
  -- Had the instruction in execute lost a cycle, the next step would not be in decode yet.
  have noDelay (executing : p.tick.tick.rest = 0) :
      ¬ p.tick.tick.machine.FeedsNext ∧ ¬ p.tick.tick.machine.Branches := by
    rw [Paced.tick_of_step executing] at now
    have none := (p.tick.tick.machine.delay_eq_zero_iff).mp now
    exact ⟨none.1, none.2.1⟩
  have go : ¬ LoadUse l.idEx l.ifId := by
    by_cases executing : p.tick.tick.rest = 0
    · rw [Paced.tick_of_step executing] at held
      rw [follows.loadUse_iff_feedsNext executing held]
      exact (noDelay executing).1
    · exact follows.no_stall_of_rest executing
  have noRedirect := follows.redirect_of_not_branches fun executing => (noDelay executing).2
  have steps := Paced.tick_of_step now
  refine ⟨?_, ?_⟩
  · rw [Cycle.idEx_of_no_redirect go noRedirect]
    exact fills_decode now held _
  · by_cases jumps : p.tick.tick.tick.machine.Jumps
    · obtain ⟨f, valid, jump⟩ := jump_of_jumps held jumps (l.memWb.retire m.registers)
      obtain ⟨ifId, pc⟩ := Cycle.front_of_jump go noRedirect valid jump
      rw [pc]
      refine .refilling ?_ ifId ?_
      · rw [steps, Machine.delay_of_jumps jumps]
      · rw [steps]
    · have onward := no_jump_of_not_jumps held jumps (l.memWb.retire m.registers)
      obtain ⟨ifId, pc⟩ := Cycle.front_of_fetch go noRedirect onward
      rw [ifId, pc]
      -- Whether a branch is taken shows in execute: until then fetch goes on behind it.
      by_cases branches : p.tick.tick.tick.machine.Branches
      · exact .squashing now branches
      · have sequential := Machine.pc_step_of_sequential branches jumps
        have fetched : m.fetch = p.tick.tick.tick.machine.step.fetch :=
          fetch_of_pc (by simpa using follows.code_front) (by rw [next, sequential])
        by_cases feeds : p.tick.tick.tick.machine.FeedsNext
        · exact .stalled now feeds fetched (by rw [next, sequential])
        · have noWait := (Machine.delay_eq_zero_iff _).mpr ⟨feeds, branches, jumps⟩
          rw [noWait] at steps
          refine .ready ?_ ?_ ?_
          · rw [steps]
          · rw [steps, fetched]
          · rw [steps, next, sequential]

theorem onward (follows : Follows p m l) : Onward p.tick.tick.tick m l := by
  cases follows.front with
  | ready now held next => exact follows.onward_of_ready now held next
  | stalled now feeds held next => exact follows.onward_of_stalled now feeds held next
  | refilling soon nothing next => exact follows.onward_of_refilling soon nothing next
  | squashing now branches => exact follows.onward_of_squashing now branches

/-- A cycle of the pipeline is a tick of the paced machine. -/
theorem clock (follows : Follows p m l) :
    Follows p.tick (m.clock l (Cycle.start m l)) ((Cycle.start m l).latches l) where
  code := by simpa [Machine.clock] using follows.code
  registers := follows.registers_retire
  data := follows.data_stored
  memWb := follows.fills_access
  exMem := follows.fills_execute
  idEx := follows.onward.1
  front := follows.onward.2

theorem start (m : Machine) : Follows (.start m) m {} where
  code := rfl
  registers := rfl
  data := rfl
  memWb := fun now => absurd now (Nat.succ_ne_zero 3)
  exMem := fun now => absurd now (Nat.succ_ne_zero 2)
  idEx := fun now => absurd now (Nat.succ_ne_zero 1)
  front := .refilling rfl rfl rfl

theorem run {s : Simulator} (follows : Follows p s.machine s.latches) (n : Nat) :
    Follows (p.run n) (s.run n).machine (s.run n).latches := by
  induction n generalizing p s with
  | zero => exact follows
  | succ n ih => exact ih (s := s.step) follows.clock

end Follows

/-- What a cycle keeps, a run keeps. -/
theorem Simulator.holds_run {P : Simulator → Prop} (step : ∀ s, P s → P s.step) {s : Simulator}
    (holds : P s) (n : Nat) : P (s.run n) := by
  induction n generalizing s with
  | zero => exact holds
  | succ n ih => exact ih (step s holds)

end MipsPipeline
