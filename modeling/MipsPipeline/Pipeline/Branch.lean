import MipsPipeline.Instruction.Decode
import MipsPipeline.Pipeline.Control

/-
Branch resolution in execute. Fetch goes on sequentially, so a branch costs something only when it
is taken; a jump through a register always is.
-/
namespace MipsPipeline

structure Resolution where
  taken : Bool
  target : Word
  deriving DecidableEq, Repr

namespace Resolution

/-- The outcome for operands `a` and `b`, if the control signals say that there is one. -/
def resolve? (control : Control) (inst : Instruction) (pc a b : Word) : Option Resolution :=
  if control.jumpReg then some ⟨true, a⟩
  else if control.branch then
    some ⟨if inst.op = .bne then a ≠ b else a = b, inst.branchTarget pc⟩
  else none

/-- Where to go instead of the next instruction. -/
def redirect? (r : Resolution) : Option Word := if r.taken then some r.target else none

end Resolution

end MipsPipeline
