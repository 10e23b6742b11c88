import MipsPipeline.Pipeline.Recent
import MipsPipeline.Program.Load
import MipsPipeline.Statistics.Basic

/-
The simulator: a machine, the latches of its pipeline, and what has been observed since the last
reset. Cycles are counted without a bound, as in the statistics: no run reaches 2^64 of them.
-/
namespace MipsPipeline

structure Simulator where
  settings : Settings
  machine : Machine
  latches : Latches := {}
  statistics : Statistics := {}
  history : Recent Snapshot
  /-- Cycles since the last reset. -/
  cycle : Nat := 0
  deriving Repr

structure ResetOptions where
  clearRegisters : Bool := false
  clearData : Bool := false
  pc : Word := 0
  deriving DecidableEq, Repr

namespace Simulator

def ofSettings (settings : Settings) : Simulator where
  settings := settings
  machine := .ofSettings settings
  history := .empty settings.historyLimit

/-- One clock cycle. -/
def step (s : Simulator) : Simulator :=
  let c := Cycle.start s.machine s.latches
  { s with
    machine := s.machine.clock s.latches c
    latches := c.latches s.latches
    statistics := s.statistics.count c
    history := s.history.push (c.snapshot s.latches (s.cycle + 1))
    cycle := s.cycle + 1 }

def run : Nat → Simulator → Simulator
  | 0, s => s
  | n + 1, s => run n s.step

/-- Nothing is in flight and nothing is left to fetch. -/
def IsDrained (s : Simulator) : Prop := s.latches.AllEmpty ∧ s.machine.current? = none

instance (s : Simulator) : Decidable s.IsDrained := inferInstanceAs (Decidable (_ ∧ _))

/-- Runs until the pipeline has drained, for at most `n` cycles. -/
def runUntilDrained : Nat → Simulator → Simulator
  | 0, s => s
  | n + 1, s => if s.IsDrained then s else runUntilDrained n s.step

/-- Empties the latches. -/
def flush (s : Simulator) : Simulator := { s with latches := {} }

/-- Continues with a newly loaded program. -/
def restart (s : Simulator) (loaded : Machine × LoadReport) : Simulator × LoadReport :=
  ({ s with machine := loaded.1, latches := {} }, loaded.2)

/-- Replaces the program with machine words; registers, data and observations stay. -/
def loadWords (s : Simulator) (words : List Word) (start : Word) :
    Except LoadError (Simulator × LoadReport) :=
  (s.machine.loadWords words start).map s.restart

def load (s : Simulator) (format : SourceFormat) (text : List Char) (start : Word) :
    Except LoadError (Simulator × LoadReport) :=
  (s.machine.loadText format text start).map s.restart

/-- Unloads the program and forgets all observations. -/
def reset (s : Simulator) (options : ResetOptions) : Except LoadError Simulator :=
  if options.pc.Aligned then
    .ok { s with
      machine := s.machine.reset options.clearRegisters options.clearData options.pc
      latches := {}
      statistics := {}
      history := s.history.clear
      cycle := 0 }
  else .error (.unalignedStart options.pc)

end Simulator

end MipsPipeline
