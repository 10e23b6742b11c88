import MipsPipeline.Pipeline.Cycle

/-
Performance counters since the last reset. They are natural numbers, where 64 bits would do as well:
no counter goes up by more than two in a cycle, and no run lasts 2^63 cycles, which at a thousand
million a second are almost three centuries. So no run brings a counter to 2^64.
-/
namespace MipsPipeline

structure Statistics where
  cycles : Nat := 0
  /-- Instructions that have gone through writeback, in all and by category. -/
  retired : Nat := 0
  alu : Nat := 0
  loads : Nat := 0
  stores : Nat := 0
  branches : Nat := 0
  jumpsRetired : Nat := 0
  /-- Conditional branches resolved in execute. -/
  branchesTaken : Nat := 0
  branchesNotTaken : Nat := 0
  /-- Jumps to a fixed target that got through decode. -/
  jumps : Nat := 0
  /-- Live instructions squashed by a redirect. -/
  flushed : Nat := 0
  /-- Cycles lost to load-use stalls. -/
  loadUseStalls : Nat := 0
  /-- Operands bypassed from each latch. -/
  bypassedExMem : Nat := 0
  bypassedMemWb : Nat := 0
  deriving DecidableEq, Repr

inductive Category where
  | alu
  | load
  | store
  | branch
  | jump
  deriving DecidableEq, Repr

def Op.category : Op → Category
  | .lw => .load
  | .sw => .store
  | .beq | .bne => .branch
  | .j | .jal | .jr => .jump
  | _ => .alu

namespace Statistics

/-- Counts `n` instructions of one operation that leave writeback. -/
def retire (s : Statistics) (op : Op) (n : Nat := 1) : Statistics :=
  let s := { s with retired := s.retired + n }
  match op.category with
  | .alu => { s with alu := s.alu + n }
  | .load => { s with loads := s.loads + n }
  | .store => { s with stores := s.stores + n }
  | .branch => { s with branches := s.branches + n }
  | .jump => { s with jumpsRetired := s.jumpsRetired + n }

def countSource (s : Statistics) : ValueSource → Statistics
  | .registerFile => s
  | .exMem => { s with bypassedExMem := s.bypassedExMem + 1 }
  | .memWb => { s with bypassedMemWb := s.bypassedMemWb + 1 }

/-- Counts an instruction that leaves execute. -/
def countExecuted (s : Statistics) (e : Executed) : Statistics :=
  let s := (s.countSource e.sourceA).countSource e.sourceB
  if ¬ e.control.branch then s
  else if e.taken then { s with branchesTaken := s.branchesTaken + 1 }
  else { s with branchesNotTaken := s.branchesNotTaken + 1 }

def countDecoded (s : Statistics) : Activity Decoding → Statistics
  | .flushed _ => { s with flushed := s.flushed + 1 }
  | .active d => if d.jump.isSome then { s with jumps := s.jumps + 1 } else s
  | _ => s

def countFetched (s : Statistics) : Activity Fetched → Statistics
  | .flushed _ => { s with flushed := s.flushed + 1 }
  | _ => s

/-- Counts what happened in a cycle. -/
def count (s : Statistics) (c : Cycle) : Statistics :=
  let s := { s with
    cycles := s.cycles + 1
    loadUseStalls := s.loadUseStalls + if c.stall then 1 else 0 }
  let s := match c.writeback with
    | .valid a => s.retire a.inst.op
    | _ => s
  let s := match c.execute with
    | .valid e => s.countExecuted e.entry
    | _ => s
  (s.countDecoded c.decode).countFetched c.fetch

/-- Cycles for each retired instruction; zero before anything has retired. -/
def cyclesPerInstruction (s : Statistics) : Float :=
  if s.retired = 0 then 0.0
  else s.cycles.toUInt64.toFloat / s.retired.toUInt64.toFloat

/-- A count as a percentage of the retired instructions. -/
def percentage (s : Statistics) (n : Nat) : Float :=
  if s.retired = 0 then 0.0 else n.toUInt64.toFloat * 100.0 / s.retired.toUInt64.toFloat

end Statistics

end MipsPipeline
