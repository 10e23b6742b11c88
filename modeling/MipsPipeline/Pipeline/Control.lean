import MipsPipeline.Instruction.Op
import MipsPipeline.Pipeline.Alu

/-
Control signals, derived from the operation in decode and carried along until writeback.
-/
namespace MipsPipeline

inductive OperandA where
  | rs
  | rt
  /-- The address of the instruction itself. -/
  | pc
  deriving DecidableEq, Repr

inductive OperandB where
  | rt
  | shamt
  /-- The constant 4, which makes a return address out of `pc`. -/
  | four
  deriving DecidableEq, Repr

structure Control where
  regWrite : Bool := false
  /-- Write back the loaded word rather than the result. -/
  memToReg : Bool := false
  memRead : Bool := false
  memWrite : Bool := false
  /-- A conditional branch, resolved in execute. -/
  branch : Bool := false
  /-- A jump to a fixed target, resolved in decode. -/
  jump : Bool := false
  /-- A jump through a register, resolved in execute. -/
  jumpReg : Bool := false
  /-- The destination is the link register. -/
  link : Bool := false
  /-- The destination is `rd` rather than `rt`. -/
  regDst : Bool := false
  /-- Operand B is the immediate, whatever `b` says. -/
  aluSrc : Bool := false
  alu : AluOp := .add
  a : OperandA := .rs
  b : OperandB := .rt
  deriving DecidableEq, Repr

namespace Control

def registerForm (alu : AluOp) : Control := { regWrite := true, regDst := true, alu }

def shiftForm (alu : AluOp) : Control := { registerForm alu with a := .rt, b := .shamt }

def immediateForm (alu : AluOp) : Control := { regWrite := true, aluSrc := true, alu }

def ofOp : Op → Control
  | .add => registerForm .add
  | .sub => registerForm .sub
  | .and => registerForm .and
  | .or => registerForm .or
  | .xor => registerForm .xor
  | .nor => registerForm .nor
  | .slt => registerForm .slt
  | .sll => shiftForm .sll
  | .srl => shiftForm .srl
  | .sra => shiftForm .sra
  | .jr => { jumpReg := true }
  | .j => { jump := true }
  | .jal => { regWrite := true, jump := true, link := true, a := .pc, b := .four }
  | .beq | .bne => { branch := true, alu := .sub }
  | .addi => immediateForm .add
  | .slti => immediateForm .slt
  | .andi => immediateForm .and
  | .ori => immediateForm .or
  | .lw => { immediateForm .add with memRead := true, memToReg := true }
  | .sw => { immediateForm .add with regWrite := false, memWrite := true }

end Control

end MipsPipeline
