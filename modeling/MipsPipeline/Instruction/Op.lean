import MipsPipeline.Word

/-
The supported operations and the one table of their codes. Decoding, encoding, the assembler and
the disassembler all read this table, so an operation is described once.
-/
namespace MipsPipeline

inductive Format where
  | register
  | immediate
  | jump
  deriving DecidableEq, Repr

def Format.letter : Format → String
  | .register => "R"
  | .immediate => "I"
  | .jump => "J"

inductive Op where
  | add | sub | and | or | xor | nor | slt
  | sll | srl | sra
  | jr
  | j | jal
  | beq | bne
  | addi | slti | andi | ori
  | lw | sw
  deriving DecidableEq, Repr

/-- How the operands of an operation are written in assembly. -/
inductive Layout where
  /-- Written `rd, rs, rt`. -/
  | threeRegisters
  /-- Written `rd, rt, amount`. -/
  | shift
  /-- Written `rs`. -/
  | oneRegister
  /-- Written `rt, rs, immediate`. -/
  | immediate
  /-- Written `rt, offset(rs)`. -/
  | memory
  /-- Written `rs, rt, destination`. -/
  | branch
  /-- Written `destination`. -/
  | jump
  deriving DecidableEq, Repr

namespace Op

def all : List Op :=
  [.add, .sub, .and, .or, .xor, .nor, .slt, .sll, .srl, .sra, .jr, .j, .jal, .beq, .bne,
   .addi, .slti, .andi, .ori, .lw, .sw]

def mnemonic : Op → String
  | .add => "add" | .sub => "sub" | .and => "and" | .or => "or" | .xor => "xor"
  | .nor => "nor" | .slt => "slt"
  | .sll => "sll" | .srl => "srl" | .sra => "sra"
  | .jr => "jr" | .j => "j" | .jal => "jal"
  | .beq => "beq" | .bne => "bne"
  | .addi => "addi" | .slti => "slti" | .andi => "andi" | .ori => "ori"
  | .lw => "lw" | .sw => "sw"

def layout : Op → Layout
  | .add | .sub | .and | .or | .xor | .nor | .slt => .threeRegisters
  | .sll | .srl | .sra => .shift
  | .jr => .oneRegister
  | .addi | .slti | .andi | .ori => .immediate
  | .lw | .sw => .memory
  | .beq | .bne => .branch
  | .j | .jal => .jump

def format (op : Op) : Format :=
  match op.layout with
  | .threeRegisters | .shift | .oneRegister => .register
  | .immediate | .memory | .branch => .immediate
  | .jump => .jump

/-- Primary opcode; every register-format operation has opcode 0. -/
def opcode : Op → BitVec 6
  | .j => 0x02 | .jal => 0x03
  | .beq => 0x04 | .bne => 0x05
  | .addi => 0x08 | .slti => 0x0A | .andi => 0x0C | .ori => 0x0D
  | .lw => 0x23 | .sw => 0x2B
  | _ => 0x00

/-- Function code that tells the register-format operations apart. -/
def funct? : Op → Option (BitVec 6)
  | .sll => some 0x00 | .srl => some 0x02 | .sra => some 0x03
  | .jr => some 0x08
  | .add => some 0x20 | .sub => some 0x22
  | .and => some 0x24 | .or => some 0x25 | .xor => some 0x26 | .nor => some 0x27
  | .slt => some 0x2A
  | _ => none

/-- The immediate is extended with zeros rather than with its sign. -/
def ZeroExtends (op : Op) : Prop := op = .andi ∨ op = .ori

instance (op : Op) : Decidable op.ZeroExtends :=
  inferInstanceAs (Decidable (op = .andi ∨ op = .ori))

/-- A word encodes an operation when it carries the operation's opcode, and its function code
if it has one. -/
def Encodes (w : Word) (op : Op) : Prop :=
  op.opcode = w.opcode ∧ op.funct?.getD w.funct = w.funct

instance (w : Word) (op : Op) : Decidable (Encodes w op) := inferInstanceAs (Decidable (_ ∧ _))

def ofWord? (w : Word) : Option Op := all.find? (Encodes w ·)

/-- Mnemonics are matched as written: in lower case, without surrounding blanks. -/
def ofMnemonic? (name : String) : Option Op := all.find? (·.mnemonic = name)

theorem mem_all (op : Op) : op ∈ all := by cases op <;> decide

end Op

end MipsPipeline
