import MipsPipeline.Simulator.Basic

/-
Traces: what each cycle of a run did to the registers. Keeping a trace does not change the run.
-/
namespace MipsPipeline

structure TraceLine where
  cycle : Nat
  /-- The program counter after the cycle. -/
  pc : Word
  /-- The registers whose value is another one than before, with the new value. -/
  changes : List (Nat × Word)
  deriving DecidableEq, Repr

/-- The registers in which a file differs from an earlier one, in order. -/
def RegisterFile.changes (now before : RegisterFile) : List (Nat × Word) :=
  ((List.range Register.count).filter fun i => now.read i ≠ before.read i).map fun i =>
    (i, now.read i)

/-- How long a run lasts. -/
inductive Extent where
  | cycles (n : Nat)
  /-- Until the pipeline has drained, and no longer than the limit. -/
  | drained (limit : Nat)
  deriving DecidableEq, Repr

namespace Extent

def limit : Extent → Nat
  | .cycles n => n
  | .drained limit => limit

/-- Whether a run ends in a state while cycles are left. -/
def Ends (e : Extent) (s : Simulator) : Prop :=
  match e with
  | .cycles _ => False
  | .drained _ => s.IsDrained

instance (e : Extent) (s : Simulator) : Decidable (e.Ends s) :=
  match e with
  | .cycles _ => inferInstanceAs (Decidable False)
  | .drained _ => inferInstanceAs (Decidable s.IsDrained)

end Extent

namespace Simulator

def runFor (s : Simulator) : Extent → Simulator
  | .cycles n => s.run n
  | .drained limit => s.runUntilDrained limit

/-- The line of the cycle that led to a state from these registers. -/
def traceLine (now : Simulator) (before : RegisterFile) : TraceLine :=
  ⟨now.cycle, now.machine.pc, now.machine.registers.changes before⟩

/-- Runs and keeps a line for every cycle. -/
def runTraced (s : Simulator) (e : Extent) : Simulator × List TraceLine :=
  go e.limit s #[]
where
  go : Nat → Simulator → Array TraceLine → Simulator × List TraceLine
    | 0, s, lines => (s, lines.toList)
    | n + 1, s, lines =>
      if e.Ends s then (s, lines.toList)
      else
        let before := s.machine.registers
        let next := s.step
        go n next (lines.push (next.traceLine before))

end Simulator

end MipsPipeline
