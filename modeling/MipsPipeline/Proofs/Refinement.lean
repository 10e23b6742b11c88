import MipsPipeline.Program.Demo
import MipsPipeline.Proofs.Clock
import MipsPipeline.Proofs.Counting

/-
The pipeline refines the sequential machine. From empty latches, a run retires what the sequential
machine executes, in its order, and leaves the registers as they are after that; data memory is one
instruction ahead just when that instruction is in MEM/WB.
-/
namespace MipsPipeline

/-- The instruction that the next cycle retires, with its address. -/
def Latches.retiring (l : Latches) : Option (Word × Instruction) :=
  l.memWb.entry?.map fun a => (a.pc, a.inst)

/-- The instructions that `n` cycles retire, in order. -/
def Simulator.retired : Nat → Simulator → List (Word × Instruction)
  | 0, _ => []
  | n + 1, s => s.latches.retiring.toList ++ retired n s.step

/-- The instruction that a paced machine is about to execute, with its address. -/
def Paced.located? (p : Paced) : Option (Word × Instruction) :=
  if p.rest = 0 then p.machine.located? else none

/-- A latch shows the instruction that its paced machine is about to execute. -/
theorem Paced.Fills.map_entry? {α : Type} {p : Paced} {carries : Machine → Instruction → α → Prop}
    {slot : Slot α} {located : α → Word × Instruction} (fills : p.Fills carries slot)
    (carried : ∀ m i entry, carries m i entry → located entry = (m.pc, i)) :
    slot.entry?.map located = p.located? := by
  unfold Paced.located? Machine.located?
  cases slot with
  | empty =>
    by_cases now : p.rest = 0
    · simp [Slot.entry?, now, fills now]
    · simp [Slot.entry?, now]
  | bubble => simp only [Slot.entry?, if_neg fills, Option.map_none]
  | valid entry =>
    obtain ⟨now, i, here, inside⟩ := fills
    simp [Slot.entry?, now, here, carried _ _ _ inside]

namespace Simulator

theorem retired_step (s : Simulator) :
    s.step.statistics.retired = s.statistics.retired + s.latches.retiring.toList.length := by
  rw [step, Statistics.retired_count, Latches.retiring, Option.toList_map, List.length_map]
  rfl

theorem statistics_run (s : Simulator) (n : Nat) :
    (s.run n).statistics.retired = s.statistics.retired + (s.retired n).length := by
  induction n generalizing s with
  | zero => rfl
  | succ n ih =>
    rw [run, ih s.step, retired_step, retired, List.length_append, Nat.add_assoc]

theorem retired_succ (s : Simulator) (n : Nat) :
    s.retired (n + 1) = s.retired n ++ (s.run n).latches.retiring.toList := by
  induction n generalizing s with
  | zero => simp [retired, run]
  | succ n ih =>
    rw [retired, ih s.step, retired, List.append_assoc]
    rfl

end Simulator

namespace Follows

variable {p : Paced} {m : Machine} {l : Latches} {s : Simulator}

theorem retiring (follows : Follows p m l) : l.retiring = p.located? :=
  follows.memWb.map_entry? fun _ _ _ carried => Prod.ext carried.pc carried.inst

theorem retired (follows : Follows p s.machine s.latches) (n : Nat) :
    s.retired n = p.machine.executed (p.taken n) := by
  induction n generalizing p s with
  | zero => rfl
  | succ n ih =>
    rw [Simulator.retired, ih (s := s.step) follows.clock, follows.retiring, Paced.located?,
      Paced.taken]
    by_cases now : p.rest = 0
    · rw [if_pos now, if_pos now, Paced.tick_of_step now]
      rfl
    · rw [if_neg now, if_neg now, Paced.machine_tick_of_rest now]
      rfl

theorem registers_run (follows : Follows p s.machine s.latches) (n : Nat) :
    (s.run n).machine.registers = (p.machine.steps (p.taken n)).registers := by
  rw [(follows.run n).registers, p.machine_run]

/-- Data memory is ahead by the instruction that is about to be retired. -/
theorem data_run (follows : Follows p s.machine s.latches) (n : Nat) :
    (s.run n).machine.data = (p.machine.steps (p.taken (n + 1))).data := by
  rw [(follows.run n).data, p.tick_run, p.machine_run]

end Follows

namespace Simulator

theorem follows_of_fresh {s : Simulator} (fresh : s.latches = {}) :
    Follows (.start s.machine) s.machine s.latches := by
  rw [fresh]
  exact .start s.machine

/-- After any number of cycles from empty latches, the instructions retired are the first ones
that the sequential machine executes; the registers are those after them, and data memory is that
after them and the one in MEM/WB. -/
theorem run_refines_steps {s : Simulator} (fresh : s.latches = {}) (n : Nat) :
    ∃ i j,
      s.retired n = s.machine.executed i ∧
      (s.run n).statistics.retired = s.statistics.retired + (s.retired n).length ∧
      (s.run n).machine.registers = (s.machine.steps i).registers ∧
      s.machine.executed j = s.retired n ++ (s.run n).latches.retiring.toList ∧
      (s.run n).machine.data = (s.machine.steps j).data := by
  have follows := follows_of_fresh fresh
  -- Memory access is a cycle ahead of writeback, so data memory has the steps of one cycle more.
  refine ⟨(Paced.start s.machine).taken n, (Paced.start s.machine).taken (n + 1),
    follows.retired n, s.statistics_run n, follows.registers_run n, ?_, follows.data_run n⟩
  rw [← s.retired_succ n]
  exact (follows.retired (n + 1)).symm

theorem run_refines_steps_loadUse :
    ∃ s report,
      (ofSettings { codeWords := 8, dataWords := 4 }).loadWords Demo.loadUse.words 0 =
        .ok (s, report) ∧
      s.latches = {} ∧
      ∃ i j,
        s.retired 20 = s.machine.executed i ∧
        (s.run 20).statistics.retired = s.statistics.retired + (s.retired 20).length ∧
        (s.run 20).machine.registers = (s.machine.steps i).registers ∧
        s.machine.executed j = s.retired 20 ++ (s.run 20).latches.retiring.toList ∧
        (s.run 20).machine.data = (s.machine.steps j).data :=
  ⟨_, _, rfl, rfl, run_refines_steps rfl 20⟩

end Simulator

end MipsPipeline
