import MipsPipeline.CommandLine.Execution
import MipsPipeline.Proofs.Retention
import MipsPipeline.Proofs.Tracing

/-
The run command. It goes through a loop of its own, in which it looks for the end before every
cycle and, for a trace, at the registers after it. The loop is the run that was asked for, whether
or not there is a trace, and what it prints can be replayed.
-/
namespace MipsPipeline

namespace Extent

/-- How many of `n` cycles a run takes. -/
def cyclesOf (e : Extent) (n : Nat) (s : Simulator) : Nat :=
  match e with
  | .cycles _ => n
  | .drained _ => s.cyclesUntilDrained n

variable {e : Extent} {s : Simulator}

theorem cyclesOf_zero (e : Extent) (s : Simulator) : e.cyclesOf 0 s = 0 := by
  cases e <;> rfl

theorem cyclesOf_of_ends (ends : e.Ends s) (n : Nat) : e.cyclesOf (n + 1) s = 0 := by
  cases e with
  | cycles _ => exact ends.elim
  | drained limit => exact if_pos ends

theorem cyclesOf_succ (goes : ¬ e.Ends s) (n : Nat) :
    e.cyclesOf (n + 1) s = e.cyclesOf n s.step + 1 := by
  cases e with
  | cycles _ => rfl
  | drained limit => exact if_neg goes

end Extent

namespace Simulator

theorem runFor_eq_run (s : Simulator) (e : Extent) : s.runFor e = s.run (e.cyclesOf e.limit s) := by
  cases e with
  | cycles n => rfl
  | drained limit => exact s.runUntilDrained_eq_run_cycles limit

theorem go_runTraced (e : Extent) (n : Nat) (s : Simulator) (lines : Array TraceLine) :
    runTraced.go e n s lines =
      (s.run (e.cyclesOf n s), lines.toList ++ s.trace (e.cyclesOf n s)) := by
  induction n generalizing s lines with
  | zero =>
    rw [runTraced.go, e.cyclesOf_zero]
    exact Prod.ext rfl (List.append_nil _).symm
  | succ n ih =>
    rw [runTraced.go]
    by_cases ends : e.Ends s
    · rw [if_pos ends, Extent.cyclesOf_of_ends ends]
      exact Prod.ext rfl (List.append_nil _).symm
    · simp only [if_neg ends, ih, Extent.cyclesOf_succ ends, run, trace, Array.toList_push,
        List.append_assoc, List.singleton_append]

end Simulator

namespace RunOptions

variable (o : RunOptions)

/-- The loop of the command. It takes the registers along that the last line was compared with, and
the lines so far. -/
def loop : Nat → Simulator → RegisterFile → List TraceLine → Simulator × List TraceLine
  | 0, s, _, lines => (s, lines)
  | n + 1, s, shown, lines =>
    if o.cycles.isSome ∨ ¬ s.IsDrained then
      if o.trace then
        loop n s.step s.step.machine.registers (lines ++ [s.step.traceLine shown])
      else loop n s.step shown lines
    else (s, lines)

theorem limit_extent : o.extent.limit = o.cycles.getD cycleLimit := by
  rw [extent]
  cases o.cycles <;> rfl

theorem not_ends_extent_iff (s : Simulator) :
    ¬ o.extent.Ends s ↔ o.cycles.isSome ∨ ¬ s.IsDrained := by
  rw [extent]
  cases o.cycles <;> simp [Extent.Ends]

theorem loop_eq {n : Nat} {s : Simulator} {shown : RegisterFile}
    (current : o.trace = true → shown = s.machine.registers) (lines : List TraceLine) :
    o.loop n s shown lines = (s.run (o.extent.cyclesOf n s),
      lines ++ if o.trace then s.trace (o.extent.cyclesOf n s) else []) := by
  induction n generalizing s shown lines with
  | zero =>
    rw [loop, o.extent.cyclesOf_zero]
    simp [Simulator.run, Simulator.trace]
  | succ n ih =>
    rw [loop]
    by_cases ends : o.extent.Ends s
    · have stops := mt (o.not_ends_extent_iff s).mpr (not_not_intro ends)
      rw [if_neg stops, Extent.cyclesOf_of_ends ends]
      simp [Simulator.run, Simulator.trace]
    · rw [if_pos ((o.not_ends_extent_iff s).mp ends), Extent.cyclesOf_succ ends]
      -- Without a trace the registers that are taken along fall behind, but nothing looks at them.
      by_cases traced : o.trace
      · rw [if_pos traced, ih (fun _ => rfl), current traced]
        simp [traced, Simulator.run, Simulator.trace]
      · rw [if_neg traced, ih (fun trace => absurd trace traced)]
        simp [traced, Simulator.run]

theorem simulate_eq (s : Simulator) :
    o.simulate s = (s.runFor o.extent,
      if o.trace then s.trace (o.extent.cyclesOf o.extent.limit s) else []) := by
  unfold simulate
  split
  · rw [Simulator.runTraced, Simulator.go_runTraced, s.runFor_eq_run]
    rfl
  · rfl

theorem loop_eq_simulate (s : Simulator) :
    o.loop (o.cycles.getD cycleLimit) s s.machine.registers [] = o.simulate s := by
  rw [loop_eq _ fun _ => rfl, simulate_eq, s.runFor_eq_run, o.limit_extent, List.nil_append]

/-- What the command prints: the trace, then the state at the end; and the warnings. -/
def output (report : LoadReport) (last : Simulator) (lines : List TraceLine) : Output where
  standard := unlines (lines.map (·.text)) ++ o.finalText last
  diagnostic := unlines (o.warnings report last)

theorem execute_of_loaded {files : Files} {file : String} {first : Simulator} {report : LoadReport}
    (loads : o.loaded files file = .ok (first, report)) :
    o.execute files file = .ok (o.output report (o.simulate first).1 (o.simulate first).2) := by
  rw [execute, loads]
  rfl

end RunOptions

namespace Simulator

theorem unused_of_load {u : Settings} {format : SourceFormat} {text : List Char} {start : Word}
    {first : Simulator} {report : LoadReport}
    (loads : (ofSettings u).load format text start = .ok (first, report)) : first.Unused := by
  obtain ⟨machine, installed, placed⟩ := map_eq_ok_iff.mp loads
  obtain ⟨program, -, rfl⟩ := map_eq_ok_iff.mp installed
  obtain rfl := (Prod.mk.inj placed).1
  exact ⟨rfl, rfl, rfl⟩

end Simulator

/-- The run command on a program that loads: the loop ends where the simulator ends that is asked
for the same run, with or without a trace, and the trace tells what the registers have become. -/
theorem Command.run_replays {files : Files} {file : String} {o : RunOptions} {u : Settings}
    {text : List Char} {first : Simulator} {report : LoadReport}
    (configured : o.settings files = .ok u) (reads : files.text file = .ok text)
    (loads : (Simulator.ofSettings u).load (o.format.getD .auto) text (o.start.getD u.startPc) =
      .ok (first, report)) :
    ∃ last lines,
      o.loop (o.cycles.getD 100000) first first.machine.registers [] = (last, lines) ∧
      (∀ n, o.cycles = some n → last = first.run n) ∧
      (o.cycles = none → last = first.runUntilDrained 100000) ∧
      (o.trace = false → lines = []) ∧
      (o.trace = true → first.Traces last lines) ∧
      (Command.run file o).execute files = .ok (o.output report last lines) ∧
      ∀ arguments, Command.parse? arguments = some (.run file o) →
        Outcome.ofArguments files arguments = ⟨.success, o.output report last lines⟩ := by
  have loaded : o.loaded files file = .ok (first, report) := by
    rw [RunOptions.loaded, configured, reads]
    exact mapError_eq_ok_iff.mpr loads
  have executes : (Command.run file o).execute files = .ok (o.output report _ _) :=
    o.execute_of_loaded loaded
  rw [o.simulate_eq] at executes
  refine ⟨_, _, (o.loop_eq_simulate first).trans (o.simulate_eq first), ?_, ?_, ?_, ?_,
    executes, ?_⟩
  · intro n given
    rw [RunOptions.extent, given]
    rfl
  · intro missing
    rw [RunOptions.extent, missing]
    rfl
  · intro untraced
    rw [untraced]
    rfl
  · intro traced
    rw [traced, first.runFor_eq_run]
    exact (Simulator.unused_of_load loads).traces _
  · intro arguments asked
    rw [Outcome.ofArguments, asked]
    simp only [executes]

/-- Counts a word of data up, with a stall between the load and its use. -/
def countUp : List Char := "lw $t0, 0($zero)\naddi $t0, $t0, 5\nsw $t0, 0($zero)".toList

def countUpFiles : Files := fun name =>
  if name = "count-up.asm" then .ok (Text.Utf8.encode countUp) else .error (.system .missing)

/-- The load leaves `$t0` as it is, so that it shows in no line. -/
theorem Command.run_replays_countUp :
    ∃ first report last lines,
      (Simulator.ofSettings {}).load .auto countUp 0 = .ok (first, report) ∧
      last = first.runUntilDrained 100000 ∧
      (RegisterFile.replay (lines.map TraceLine.text)).read 8 = 5 ∧
      Outcome.ofArguments countUpFiles ["run", "count-up.asm", "--trace"] =
        ⟨.success, RunOptions.output { trace := true } report last lines⟩ := by
  have counts : ((Simulator.ofSettings {}).load .auto countUp 0).toOption.map
      (fun p => (p.1.runUntilDrained 100000).machine.registers.read 8) = some 5 := by
    decide +kernel
  cases loads : (Simulator.ofSettings {}).load .auto countUp 0 with
  | error cause =>
    rw [loads] at counts
    contradiction
  | ok loaded =>
    rw [loads] at counts
    obtain ⟨first, report⟩ := loaded
    have reads : countUpFiles.text "count-up.asm" = .ok countUp := by decide +kernel
    obtain ⟨last, lines, -, -, drains, -, traced, -, outcome⟩ :=
      @Command.run_replays countUpFiles "count-up.asm" { trace := true } {} countUp first report rfl
        reads loads
    have drained : last = first.runUntilDrained 100000 := drains rfl
    refine ⟨first, report, last, lines, rfl, drained, ?_, outcome _ ?_⟩
    · rw [(traced rfl).replay, drained]
      exact Option.some.inj counts
    · decide +kernel

end MipsPipeline
