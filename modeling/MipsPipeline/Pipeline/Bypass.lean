import MipsPipeline.Pipeline.Latch

/-
Bypassing. An operand in execute is taken from the youngest older instruction that produces it:
from EX/MEM if that instruction computes it, else from MEM/WB, else as decode read it. A load in
EX/MEM has no data yet and is no source; a stall keeps its user out of execute until it has.
-/
namespace MipsPipeline.Bypass

/-- The instruction in EX/MEM computes the contents of a register. -/
def Computes (e : Executed) (register : Nat) : Prop :=
  e.control.regWrite ∧ ¬ e.control.memRead ∧ e.dest = register

instance (e : Executed) (register : Nat) : Decidable (Computes e register) :=
  inferInstanceAs (Decidable (_ ∧ _ ∧ _))

/-- The instruction in MEM/WB is about to write a register. -/
def Writes (a : Accessed) (register : Nat) : Prop := a.control.regWrite ∧ a.dest = register

instance (a : Accessed) (register : Nat) : Decidable (Writes a register) :=
  inferInstanceAs (Decidable (_ ∧ _))

/-- The source of a register's value together with the value; `value` is what decode read. -/
def resolve (register : Nat) (value : Word) (exMem : Slot Executed) (memWb : Slot Accessed) :
    ValueSource × Word :=
  if register = 0 then (.registerFile, value)
  else match exMem.entry?.filter (Computes · register) with
    | some e => (.exMem, e.result)
    | none => match memWb.entry?.filter (Writes · register) with
      | some a => (.memWb, a.writeData)
      | none => (.registerFile, value)

/-- Only registers that the instruction reads are bypassed. -/
def operand (inst : Instruction) (register : Nat) (value : Word) (exMem : Slot Executed)
    (memWb : Slot Accessed) : ValueSource × Word :=
  if inst.Reads register then resolve register value exMem memWb else (.registerFile, value)

end MipsPipeline.Bypass
