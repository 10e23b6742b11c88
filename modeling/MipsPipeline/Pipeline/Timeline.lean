import MipsPipeline.Pipeline.Hazard

/-
The timeline: what each stage did in each cycle.
-/
namespace MipsPipeline

/-- What a stage did in one cycle, with the entry it worked on. -/
inductive Activity (α : Type) where
  /-- There was nothing to do. -/
  | idle
  /-- A bubble passed through. -/
  | bubble
  /-- A stall kept the instruction where it was, if there was one. -/
  | stalled (entry : Option α)
  /-- A redirect squashed the instruction. -/
  | flushed (entry : α)
  | active (entry : α)
  deriving DecidableEq, Repr

inductive StageState where
  | instr
  | empty
  | stall
  | bubble
  | flush
  deriving DecidableEq, Repr

def StageState.label : StageState → String
  | .instr => "INSTR"
  | .empty => "EMPTY"
  | .stall => "STALL"
  | .bubble => "BUBBLE"
  | .flush => "FLUSH"

namespace Activity

variable {α β : Type}

def ofSlot : Slot α → Activity α
  | .empty => .idle
  | .bubble => .bubble
  | .valid entry => .active entry

def map (f : α → β) : Activity α → Activity β
  | .idle => .idle
  | .bubble => .bubble
  | .stalled entry => .stalled (entry.map f)
  | .flushed entry => .flushed (f entry)
  | .active entry => .active (f entry)

def state : Activity α → StageState
  | .idle => .empty
  | .bubble => .bubble
  | .stalled _ => .stall
  | .flushed _ => .flush
  | .active _ => .instr

def entry? : Activity α → Option α
  | .idle | .bubble => none
  | .stalled entry => entry
  | .flushed entry | .active entry => some entry

/-- What the stage hands on: an instruction that does not get through leaves a bubble. -/
def output : Activity α → Slot α
  | .idle => .empty
  | .bubble | .stalled _ | .flushed _ => .bubble
  | .active entry => .valid entry

@[simp] theorem output_ofSlot (s : Slot α) : (ofSlot s).output = s := by cases s <;> rfl

end Activity

/-- All five stages in one cycle. Execute, memory access and writeback are shown with the entry
they produced, writeback with the one it consumed. -/
structure Snapshot where
  /-- Cycles are counted from 1. -/
  cycle : Nat
  fetch : Activity Fetched
  decode : Activity Decoded
  execute : Activity Executed
  memory : Activity Accessed
  writeback : Activity Accessed
  hazards : List Hazard
  deriving DecidableEq, Repr

end MipsPipeline
