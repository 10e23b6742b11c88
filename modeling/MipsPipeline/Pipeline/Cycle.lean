import MipsPipeline.Pipeline.Stage
import MipsPipeline.Pipeline.Timeline

/-
One clock cycle. Every stage works on the latches as the cycle finds them. Writeback comes before
decode, so decode reads what is written in the same cycle. A load-use hazard holds the program
counter and IF/ID and sends a bubble on; a redirect out of execute squashes decode and fetch, a
jump in decode squashes fetch, and the older of the two wins.
-/
namespace MipsPipeline

/-- What the five stages do in a cycle. -/
structure Cycle where
  writeback : Slot Accessed
  memory : Slot Accessed
  execute : Slot Execution
  stall : Bool
  decode : Activity Decoding
  fetch : Activity Fetched
  deriving DecidableEq, Repr

/-- The effect of writeback on the registers. -/
def Slot.retire (memWb : Slot Accessed) (registers : RegisterFile) : RegisterFile :=
  match memWb with
  | .valid a => a.retire registers
  | .empty | .bubble => registers

/-- The effect of memory access on the data. -/
def Slot.stored (exMem : Slot Executed) (data : DataMemory) : DataMemory :=
  match exMem with
  | .valid e => e.stored data
  | .empty | .bubble => data

/-- The redirect that execute asks for. -/
def Slot.redirect? (execute : Slot Execution) : Option Word := execute.entry?.bind (·.redirect)

/-- The jump of an instruction that gets through decode. -/
def Activity.jump? : Activity Decoding → Option Word
  | .active d => d.jump
  | _ => none

/-- Decode under a stall or a redirect out of execute; the stall comes first. -/
def Latches.decode (l : Latches) (registers : RegisterFile) (stall : Bool)
    (redirect : Option Word) : Activity Decoding :=
  match l.ifId with
  | .empty => .idle
  | .bubble => .bubble
  | .valid f =>
    let d := f.decode registers
    if stall then .stalled (some d)
    else if redirect.isSome then .flushed d
    else .active d

/-- Fetch under a stall, which shows what waits at the program counter, or a redirect. -/
def Machine.intake (m : Machine) (stall : Bool) (redirect : Option Word) : Activity Fetched :=
  match stall, m.fetch with
  | true, waiting => .stalled waiting.entry?
  | false, .valid f => if redirect.isSome then .flushed f else .active f
  | false, _ => .idle

namespace Cycle

/-- The cycle that starts from a machine and latches. -/
def start (m : Machine) (l : Latches) : Cycle :=
  let execute := l.idEx.map (·.execute l.exMem l.memWb)
  let stall := decide (LoadUse l.idEx l.ifId)
  let decode := l.decode (l.memWb.retire m.registers) stall execute.redirect?
  { writeback := l.memWb
    memory := l.exMem.map (·.access m.data)
    execute := execute
    stall := stall
    decode := decode
    fetch := m.intake stall (execute.redirect?.or decode.jump?) }

/-- Where control goes instead of to the next instruction. -/
def redirect? (c : Cycle) : Option Word := c.execute.redirect?.or c.decode.jump?

/-- The latches at the end of the cycle; a stall keeps IF/ID. -/
def latches (c : Cycle) (l : Latches) : Latches where
  ifId := if c.stall then l.ifId else c.fetch.output
  idEx := c.decode.output.map (·.entry)
  exMem := c.execute.map (·.entry)
  memWb := c.memory

/-- The program counter at the end of the cycle. -/
def pc (c : Cycle) (pc : Word) : Word := if c.stall then pc else c.redirect?.getD pc.next

/-- The reports of the cycle: stall, bypassed operands, redirect out of execute, jump. -/
def hazards (c : Cycle) (l : Latches) : List Hazard :=
  let stalls := if c.stall then (Hazard.loadUse? l.idEx l.ifId).toList else []
  let executes := match l.idEx, c.execute with
    | .valid d, .valid e =>
      Hazard.bypasses e.entry d.rs d.rt ++ (e.redirect.map (Hazard.taken e.entry.inst)).toList
    | _, _ => []
  let jumps := match c.decode with
    | .active d => (d.jump.map (Hazard.jump d.entry.inst)).toList
    | _ => []
  stalls ++ executes ++ jumps

def snapshot (c : Cycle) (l : Latches) (number : Nat) : Snapshot where
  cycle := number
  fetch := c.fetch
  decode := c.decode.map (·.entry)
  execute := .ofSlot (c.execute.map (·.entry))
  memory := .ofSlot c.memory
  writeback := .ofSlot c.writeback
  hazards := c.hazards l

end Cycle

/-- The machine after a cycle that starts from it and the latches. -/
def Machine.clock (m : Machine) (l : Latches) (c : Cycle) : Machine where
  registers := l.memWb.retire m.registers
  pc := c.pc m.pc
  code := m.code
  data := l.exMem.stored m.data

end MipsPipeline
