import MipsPipeline.Simulator.Basic

/-
Calls: what can be asked of a simulator, one after the other, and what is answered. A load or a
reset that is refused changes nothing.
-/
namespace MipsPipeline.Simulator

inductive Call where
  | load (format : SourceFormat) (text : List Char) (start : Word)
  | loadWords (words : List Word) (start : Word)
  | reset (options : ResetOptions)
  | step
  | run (cycles : Nat)
  | runUntilDrained (cycles : Nat)
  | flush
  | writeRegister (register : Nat) (value : Word)
  | storeWord (address value : Word)
  | setPc (pc : Word)
  deriving DecidableEq, Repr

/-- What is left of a simulator that was asked for a load. -/
def afterLoad (s : Simulator) : Except LoadError (Simulator × LoadReport) → Simulator
  | .ok (t, _) => t
  | .error _ => s

def perform (s : Simulator) : Call → Simulator
  | .load format text start => s.afterLoad (s.load format text start)
  | .loadWords words start => s.afterLoad (s.loadWords words start)
  | .reset options => match s.reset options with
    | .ok t => t
    | .error _ => s
  | .step => s.step
  | .run cycles => s.run cycles
  | .runUntilDrained cycles => s.runUntilDrained cycles
  | .flush => s.flush
  | .writeRegister register value =>
    { s with machine := { s.machine with registers := s.machine.registers.write register value } }
  | .storeWord address value =>
    { s with machine := { s.machine with data := s.machine.data.store address value } }
  | .setPc pc => { s with machine := { s.machine with pc := pc } }

def performAll (s : Simulator) (calls : List Call) : Simulator := calls.foldl perform s

/-- How many cycles it takes until the pipeline has drained, counted up to `n`. -/
def cyclesUntilDrained : Nat → Simulator → Nat
  | 0, _ => 0
  | n + 1, s => if s.IsDrained then 0 else cyclesUntilDrained n s.step + 1

inductive Answer where
  | done
  | loaded (result : Except LoadError LoadReport)
  | reset (result : Except LoadError Unit)
  | ran (cycles : Nat)

def answer (s : Simulator) : Call → Answer
  | .load format text start => .loaded ((s.load format text start).map (·.2))
  | .loadWords words start => .loaded ((s.loadWords words start).map (·.2))
  | .reset options => .reset ((s.reset options).map fun _ => ())
  | .runUntilDrained cycles => .ran (s.cyclesUntilDrained cycles)
  | .step | .run _ | .flush | .writeRegister .. | .storeWord .. | .setPc _ => .done

/-- Calls of the allowed kinds make the simulator out of a new one. -/
def Reachable (allowed : Call → Prop) (s : Simulator) : Prop :=
  ∃ settings calls, (∀ c ∈ calls, allowed c) ∧ (ofSettings settings).performAll calls = s

/-- A program is loaded or unloaded, or the clock ticks once. -/
def Call.Plain : Call → Prop
  | .load .. | .loadWords .. | .reset _ | .step => True
  | _ => False

instance (c : Call) : Decidable c.Plain :=
  match c with
  | .load .. | .loadWords .. | .reset _ | .step => isTrue trivial
  | .run _ | .runUntilDrained _ | .flush | .writeRegister .. | .storeWord .. | .setPc _ =>
    isFalse id

end MipsPipeline.Simulator
