import MipsPipeline.Simulator.Basic

/-
Events: what can be reported while the simulator works. They are read off the state that an
operation starts from, so reporting cannot change what is simulated.
-/
namespace MipsPipeline

inductive Level where
  | warn
  | info
  | debug
  | trace
  deriving DecidableEq, Repr

namespace Level

def severity : Level → Nat
  | .warn => 0
  | .info => 1
  | .debug => 2
  | .trace => 3

def label : Level → String
  | .warn => "WARN"
  | .info => "INFO"
  | .debug => "DEBUG"
  | .trace => "TRACE"

/-- A log at one level holds the events of that level and the more severe ones. -/
def Shows (log event : Level) : Prop := event.severity ≤ log.severity

instance (log event : Level) : Decidable (Shows log event) := inferInstanceAs (Decidable (_ ≤ _))

end Level

inductive Event where
  | loadOutside (address : Word)
  | storeOutside (address value : Word)
  | wordSkipped (address : Word)
  | programLoaded (report : LoadReport)
  | reset (options : ResetOptions)
  | wroteBack (register : Nat) (value : Word)
  | loaded (address value : Word)
  | stored (address value : Word)
  | executed (e : Execution)
  | decoded (f : Fetched)
  | fetched (f : Fetched)
  | stages (snapshot : Snapshot)
  | cycleComplete (cycle : Nat) (pc : Word) (stall : Bool) (redirect : Option Word)
  deriving Repr

namespace Event

def level : Event → Level
  | .loadOutside .. | .storeOutside .. | .wordSkipped .. => .warn
  | .programLoaded .. | .reset .. => .info
  | .stages .. | .cycleComplete .. => .debug
  | .wroteBack .. | .loaded .. | .stored .. | .executed .. | .decoded .. | .fetched .. => .trace

def message : Event → String
  | .loadOutside .. => "load outside data memory; returning 0"
  | .storeOutside .. => "store outside data memory ignored"
  | .wordSkipped .. => "instruction outside instruction memory skipped"
  | .programLoaded .. => "program loaded"
  | .reset .. => "simulator reset"
  | .wroteBack .. => "WB"
  | .loaded .. => "MEM load"
  | .stored .. => "MEM store"
  | .executed .. => "EX"
  | .decoded .. => "ID"
  | .fetched .. => "IF"
  | .stages .. => "stages"
  | .cycleComplete .. => "cycle complete"

def unsigned (w : Word) : String := toString w.toNat
def signed (w : Word) : String := toString w.toInt

def redirectText : Option Word → String
  | none => "None"
  | some target => "Some(" ++ unsigned target ++ ")"

def sourceText : ValueSource → String
  | .registerFile => "RegFile"
  | .memWb => "MemWb"
  | .exMem => "ExMem"

def stateText : StageState → String
  | .instr => "Instr"
  | .empty => "Empty"
  | .stall => "Stall"
  | .bubble => "Bubble"
  | .flush => "Flush"

/-- A live instruction is shown alone; otherwise the state of the stage is shown with it. -/
def activityText {α : Type} (inst : α → Instruction) (a : Activity α) : String :=
  match a.state, a.entry? with
  | .instr, some entry => (inst entry).assembly
  | state, some entry => stateText state ++ "(" ++ (inst entry).assembly ++ ")"
  | state, none => stateText state

def fields : Event → List (String × String)
  | .loadOutside address | .wordSkipped address => [("addr", unsigned address)]
  | .storeOutside address value | .loaded address value | .stored address value =>
    [("addr", unsigned address), ("value", signed value)]
  | .programLoaded report =>
    [("loaded", toString report.loaded), ("start", unsigned report.start),
     ("end", unsigned report.last), ("skipped", toString report.skipped.length)]
  | .reset options =>
    [("clear_regs", toString options.clearRegisters), ("clear_mem", toString options.clearData),
     ("pc", unsigned options.pc)]
  | .wroteBack register value => [("reg", Register.name register), ("value", signed value)]
  | .executed e =>
    [("pc", unsigned e.entry.pc), ("alu", signed e.entry.result),
     ("forward_a", sourceText e.entry.sourceA), ("forward_b", sourceText e.entry.sourceB),
     ("redirect", redirectText e.redirect)]
  | .decoded f => [("pc", unsigned f.pc), ("asm", f.inst.assembly)]
  | .fetched f => [("pc", unsigned f.pc), ("word", unsigned f.inst.raw)]
  | .stages s =>
    [("cycle", toString s.cycle),
     ("IF", activityText Fetched.inst s.fetch), ("ID", activityText Decoded.inst s.decode),
     ("EX", activityText Executed.inst s.execute), ("MEM", activityText Accessed.inst s.memory),
     ("WB", activityText Accessed.inst s.writeback)]
  | .cycleComplete cycle pc stall redirect =>
    [("cycle", toString cycle), ("pc", unsigned pc), ("stall", toString stall),
     ("redirect", redirectText redirect)]

end Event

namespace DataMemory

def loadEvents (m : DataMemory) (address : Word) : List Event :=
  if m.Contains address then [] else [.loadOutside address]

def storeEvents (m : DataMemory) (address value : Word) : List Event :=
  if m.Contains address then [] else [.storeOutside address value]

end DataMemory

def Accessed.events (a : Accessed) : List Event :=
  (a.write?.map fun (register, value) => Event.wroteBack register value).toList

def Executed.events (e : Executed) (data : DataMemory) : List Event :=
  let loads :=
    if e.control.memRead then
      data.loadEvents e.result ++ [.loaded e.result (e.loaded data)]
    else []
  let stores :=
    if e.control.memWrite then
      .stored e.result e.storeData :: data.storeEvents e.result e.storeData
    else []
  loads ++ stores

def LoadReport.events (r : LoadReport) : List Event :=
  r.skipped.map .wordSkipped ++ [.programLoaded r]

/-- The events of the next cycle, stage by stage from the back of the pipeline to its front. -/
def Simulator.cycleEvents (s : Simulator) : List Event :=
  let c := Cycle.start s.machine s.latches
  let fetches := if c.stall then [] else s.machine.fetch.entry?.toList
  let snapshot := c.snapshot s.latches (s.cycle + 1)
  s.latches.memWb.entry?.toList.flatMap (·.events)
    ++ s.latches.exMem.entry?.toList.flatMap (·.events s.machine.data)
    ++ c.execute.entry?.toList.map .executed
    ++ s.latches.ifId.entry?.toList.map .decoded
    ++ fetches.map .fetched
    ++ (if s.settings.traceStages then [.stages snapshot] else [])
    ++ [.cycleComplete (s.cycle + 1) (c.pc s.machine.pc) c.stall c.redirect?]

/-- The events of the next `n` cycles. -/
def Simulator.runEvents (n : Nat) (s : Simulator) : List Event :=
  (go n s #[]).toList
where
  go : Nat → Simulator → Array Event → Array Event
    | 0, _, events => events
    | n + 1, s, events => go n s.step (events ++ s.cycleEvents)

end MipsPipeline
