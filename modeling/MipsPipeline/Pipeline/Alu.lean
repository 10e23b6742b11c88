import MipsPipeline.Word

/-
The arithmetic-logic unit. Addition and subtraction wrap instead of trapping, comparison is
signed, and a shift uses the low five bits of its amount.
-/
namespace MipsPipeline

inductive AluOp where
  | add | sub
  | and | or | xor | nor | slt
  | sll | srl | sra
  deriving DecidableEq, Repr

def AluOp.apply (op : AluOp) (a b : Word) : Word :=
  let amount := (b.extractLsb' 0 5).toNat
  match op with
  | .add => a + b
  | .sub => a - b
  | .and => a &&& b
  | .or => a ||| b
  | .xor => a ^^^ b
  | .nor => ~~~(a ||| b)
  | .slt => if a.slt b then 1 else 0
  | .sll => a <<< amount
  | .srl => a >>> amount
  | .sra => a.sshiftRight amount

/-- The parts of the unit, each of which answers zero to an operation of another part. -/
inductive AluPart where
  | arithmetic
  | logic
  | shifts
  deriving DecidableEq, Repr

def AluOp.part : AluOp → AluPart
  | .add | .sub => .arithmetic
  | .and | .or | .xor | .nor | .slt => .logic
  | .sll | .srl | .sra => .shifts

def AluPart.apply (part : AluPart) (op : AluOp) (a b : Word) : Word :=
  if op.part = part then op.apply a b else 0

theorem AluOp.apply_eq_part_apply (op : AluOp) (a b : Word) :
    op.apply a b = op.part.apply op a b := by simp [AluPart.apply]

end MipsPipeline
