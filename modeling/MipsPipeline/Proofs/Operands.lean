import MipsPipeline.Proofs.Reporting

/-
Operands in execute. As long as nothing writes to the machine behind the back of the pipeline, what
decode has read is what the registers hold, and every register that the instruction in execute reads
is given to it as the two instructions in front of it will leave it. The nearer of the two is never
a load of that register, whose data could not be given.
-/
namespace MipsPipeline

namespace Simulator

/-- A direct write to the machine, which the pipeline does not notice. -/
def Call.Interferes : Call → Prop
  | .writeRegister .. | .storeWord .. | .setPc _ => True
  | _ => False

instance (c : Call) : Decidable c.Interferes :=
  match c with
  | .writeRegister .. | .storeWord .. | .setPc _ => isTrue trivial
  | .load .. | .loadWords .. | .reset _ | .step | .run _ | .runUntilDrained _ | .flush =>
    isFalse id

theorem Call.Plain.not_interferes {c : Call} (plain : c.Plain) : ¬ c.Interferes := by
  cases c <;> simp_all [Plain, Interferes]

variable {s : Simulator}

theorem afterLoad_eq_or_fresh (s : Simulator)
    (loaded : Except LoadError (Machine × LoadReport)) :
    s.afterLoad (loaded.map s.restart) = s ∨
      (s.afterLoad (loaded.map s.restart)).latches = {} := by
  cases loaded with
  | error cause => exact .inl rfl
  | ok loaded => exact .inr rfl

/-- A call that does not interfere lets the clock tick some times, or empties the latches. -/
theorem perform_eq_run_or_fresh (s : Simulator) {c : Call} (undisturbed : ¬ c.Interferes) :
    (∃ n, s.perform c = s.run n) ∨ (s.perform c).latches = {} := by
  cases c with
  | load format text start => exact (s.afterLoad_eq_or_fresh _).imp_left fun same => ⟨0, same⟩
  | loadWords words start => exact (s.afterLoad_eq_or_fresh _).imp_left fun same => ⟨0, same⟩
  | reset options =>
    by_cases aligned : options.pc.Aligned
    · refine .inr ?_
      rw [perform, reset, if_pos aligned]
    · refine .inl ⟨0, ?_⟩
      rw [perform, reset, if_neg aligned]
      rfl
  | step => exact .inl ⟨1, rfl⟩
  | run cycles => exact .inl ⟨cycles, rfl⟩
  | runUntilDrained cycles =>
    obtain ⟨n, -, same, -⟩ := s.runUntilDrained_eq_run cycles
    exact .inl ⟨n, same⟩
  | flush => exact .inr rfl
  | writeRegister register value => exact absurd trivial undisturbed
  | storeWord address value => exact absurd trivial undisturbed
  | setPc pc => exact absurd trivial undisturbed

/-- A property of all simulators with empty latches that the clock keeps. -/
structure Clocked (P : Simulator → Prop) : Prop where
  fresh : ∀ s, s.latches = {} → P s
  step : ∀ s, P s → P s.step

namespace Clocked

variable {P : Simulator → Prop}

theorem perform (clocked : Clocked P) (holds : P s) {c : Call} (undisturbed : ¬ c.Interferes) :
    P (s.perform c) := by
  rcases s.perform_eq_run_or_fresh undisturbed with ⟨n, same⟩ | fresh
  · rw [same]
    exact holds_run clocked.step holds n
  · exact clocked.fresh _ fresh

theorem performAll (clocked : Clocked P) (holds : P s) {calls : List Call}
    (undisturbed : ∀ c ∈ calls, ¬ c.Interferes) : P (s.performAll calls) := by
  induction calls generalizing s with
  | nil => exact holds
  | cons c calls ih =>
    refine ih (clocked.perform holds (undisturbed c List.mem_cons_self)) ?_
    intro other member
    exact undisturbed other (List.mem_cons_of_mem c member)

theorem of_reachable {allowed : Call → Prop} (clocked : Clocked P)
    (reachable : s.Reachable allowed) (undisturbed : ∀ c, allowed c → ¬ c.Interferes) : P s := by
  obtain ⟨settings, calls, kinds, rfl⟩ := reachable
  have start : P (ofSettings settings) := clocked.fresh _ rfl
  exact clocked.performAll start fun c member => undisturbed c (kinds c member)

end Clocked

/-- The pipeline is at work on what some sequential machine executes. -/
def InStep (s : Simulator) : Prop := ∃ p, Follows p s.machine s.latches

theorem inStep_of_fresh (fresh : s.latches = {}) : s.InStep := ⟨_, follows_of_fresh fresh⟩

theorem InStep.run (inStep : s.InStep) (n : Nat) : (s.run n).InStep := by
  obtain ⟨p, follows⟩ := inStep
  exact ⟨p.run n, follows.run n⟩

theorem clocked_inStep : Clocked InStep where
  fresh _ fresh := inStep_of_fresh fresh
  step _ inStep := inStep.run 1

theorem inStep_of_reachable {allowed : Call → Prop} (reachable : s.Reachable allowed)
    (undisturbed : ∀ c, allowed c → ¬ c.Interferes) : s.InStep :=
  clocked_inStep.of_reachable reachable undisturbed

end Simulator

/-- The registers that decode has read for an instruction, with what it found there. -/
def Decoded.values (d : Decoded) : List (Nat × Word) := [(d.rs, d.value1), (d.rt, d.value2)]

/-- The registers after the two instructions in front of execute: the one in MEM/WB writes back,
then the one in EX/MEM accesses memory and writes back. -/
def Simulator.settled (s : Simulator) : RegisterFile :=
  let older := s.latches.memWb.retire s.machine.registers
  let accessed := s.latches.exMem.map (·.access s.machine.data)
  accessed.retire older

theorem Instruction.mem_fields_of_source {i : Instruction} {r : Nat}
    (source : i.sources.1 = some r ∨ i.sources.2 = some r) : r = i.rs ∨ r = i.rt := by
  have cases := i.sources_cases
  simp only [List.mem_cons, List.not_mem_nil, or_false] at cases
  rcases cases with sources | sources | sources | sources <;>
    simp only [sources, reduceCtorEq, Option.some.injEq, or_false, false_or] at source
  · exact .inl source.symm
  · exact .inr source.symm
  · exact source.imp Eq.symm Eq.symm

namespace Follows

variable {p : Paced} {s : Simulator} {d : Decoded}

theorem values_eq (follows : Follows p s.machine s.latches) (held : d ∈ s.latches.idEx.entry?)
    {r : Nat} {v : Word} (read : (r, v) ∈ d.values) : v = s.machine.registers.read r := by
  obtain ⟨-, i, -, rfl⟩ := follows.idEx.of_entry held
  simp only [Decoded.values, List.mem_cons, List.not_mem_nil, or_false, Prod.mk.injEq] at read
  rcases read with ⟨rfl, rfl⟩ | ⟨rfl, rfl⟩ <;> rfl

/-- No load of a register stands right in front of an instruction that reads it. -/
theorem ready (follows : Follows p s.machine s.latches) (held : d ∈ s.latches.idEx.entry?)
    {r : Nat} (reads : d.inst.Reads r) : ∀ e ∈ s.latches.exMem.entry?, Bypass.Ready e r := by
  obtain ⟨now, i, here, rfl⟩ := follows.idEx.of_entry held
  exact follows.bypass_ready now here reads

theorem resolve_eq_settled (follows : Follows p s.machine s.latches)
    (held : d ∈ s.latches.idEx.entry?) {r : Nat} {v : Word} (read : (r, v) ∈ d.values)
    (source : d.inst.sources.1 = some r ∨ d.inst.sources.2 = some r) :
    (Bypass.resolve r v s.latches.exMem s.latches.memWb).2 = s.settled.read r := by
  rw [follows.values_eq held read]
  by_cases zero : r = 0
  · subst zero
    simp [Bypass.resolve]
  · have written : ∀ a ∈ s.latches.memWb.entry?, a.dest < Register.count := by
      intro a inside
      obtain ⟨-, j, -, carried⟩ := follows.memWb.of_entry inside
      exact carried.dest_lt
    exact Bypass.resolve_eq_read s.machine.data zero written (follows.ready held ⟨zero, source⟩)

end Follows

namespace Simulator

/-- Behind plain calls the instruction in execute has no load in front of it that it waits for, and
each register that it reads is resolved to what the two older instructions make of it. -/
theorem operands_settled {s : Simulator} (reachable : s.Reachable Call.Plain) :
    ∀ d ∈ s.latches.idEx.entry?,
      (∀ e ∈ s.latches.exMem.entry?, e.control.memRead → e.dest ≠ 0 → ¬ d.inst.Reads e.dest) ∧
      ∀ r, d.inst.sources.1 = some r ∨ d.inst.sources.2 = some r →
        (∃ v, (r, v) ∈ d.values) ∧
        ∀ v, (r, v) ∈ d.values →
          (Bypass.resolve r v s.latches.exMem s.latches.memWb).2 = s.settled.read r := by
  obtain ⟨p, follows⟩ := inStep_of_reachable reachable fun _ plain => plain.not_interferes
  intro d held
  refine ⟨?_, ?_⟩
  · intro e inside memRead nonzero reads
    exact (follows.ready held reads e inside).notLoading ⟨memRead, rfl⟩
  · intro r source
    refine ⟨?_, fun v read => follows.resolve_eq_settled held read source⟩
    obtain ⟨-, i, -, rfl⟩ := follows.idEx.of_entry held
    rcases i.mem_fields_of_source source with rfl | rfl
    · exact ⟨_, List.mem_cons_self⟩
    · exact ⟨_, List.mem_cons_of_mem _ List.mem_cons_self⟩

/-- Stores 5 in memory, loads it into `$t1`, adds 2 to `$t0`, and has `add $t2, $t1, $t0` in
execute with both of them still on their way. -/
def summing : Simulator :=
  (ofSettings { codeWords := 8, dataWords := 4 }).performAll
    (.loadWords [0x20080005, 0xAC080000, 0x8C090000, 0x21080002, 0x01285020] 0 ::
      List.replicate 6 .step)

theorem operands_settled_summing :
    summing.Reachable Call.Plain ∧
      (∃ d ∈ summing.latches.idEx.entry?,
        d.inst.sources = (some 9, some 8) ∧ d.values = [(9, 0), (8, 5)]) ∧
      summing.settled.read 9 = 5 ∧ summing.settled.read 8 = 7 ∧
      (Bypass.resolve 9 0 summing.latches.exMem summing.latches.memWb).2 = 5 ∧
      (Bypass.resolve 8 5 summing.latches.exMem summing.latches.memWb).2 = 7 := by
  have reachable : summing.Reachable Call.Plain := ⟨_, _, by decide, rfl⟩
  have held : ∃ d ∈ summing.latches.idEx.entry?,
      d.inst.sources = (some 9, some 8) ∧ d.values = [(9, 0), (8, 5)] := by decide
  have loaded : summing.settled.read 9 = 5 := by decide
  have computed : summing.settled.read 8 = 7 := by decide
  obtain ⟨d, inside, sources, values⟩ := held
  obtain ⟨-, settled⟩ := operands_settled reachable d inside
  have first := (settled 9 (.inl (by rw [sources]))).2 0 (by rw [values]; decide)
  have second := (settled 8 (.inr (by rw [sources]))).2 5 (by rw [values]; decide)
  exact ⟨reachable, ⟨d, inside, sources, values⟩, loaded, computed, first.trans loaded,
    second.trans computed⟩

end Simulator

end MipsPipeline
