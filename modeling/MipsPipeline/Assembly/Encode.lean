import MipsPipeline.Assembly.Diagnostic
import MipsPipeline.Assembly.Line
import MipsPipeline.Instruction.Op
import MipsPipeline.Register.Name
import Std.Data.TreeMap

/-
Encoding one instruction of a program. Operands are separated by commas, parentheses and blanks in
any mixture. They are checked from left to right once their number is right, and the first fault
is the one reported.
-/
namespace MipsPipeline.Assembly

/-- The labels of a program with their addresses. -/
abbrev Labels : Type := Std.TreeMap (List Char) Word

def isOperandSeparator (c : Char) : Bool := c = ',' || c = '(' || c = ')' || Text.isBlank c

/-- A decimal number, or a hexadecimal one behind `0x`, with at most one sign in front. -/
def integer? (operand : List Char) : Option Int :=
  let (negative, unsigned) := match operand with
    | '-' :: rest => (true, rest)
    | '+' :: rest => (false, rest)
    | _ => (false, operand)
  let magnitude? := match Text.hexMark? unsigned with
    | some digits => Text.digits? 16 digits
    | none => Text.digits? 10 unsigned
  (magnitude?.filter (· < Text.counterLimit / 2)).map fun (n : Nat) =>
    if negative then -(n : Int) else (n : Int)

def register (operand : List Char) : Except Fault Nat :=
  match Register.index? operand with
  | some i => .ok i
  | none => .error (.badRegister (String.ofList operand))

/-- An integer between `low` and `high`. -/
def integerWithin (low high : Int) (operand : List Char) : Except Fault Int :=
  match integer? operand with
  | some n => if low ≤ n ∧ n ≤ high then .ok n else .error (.badImmediate (String.ofList operand))
  | none => .error (.badImmediate (String.ofList operand))

def shiftAmount (operand : List Char) : Except Fault Int := integerWithin 0 31 operand

/-- A value for the 16-bit field, read as signed or as unsigned. -/
def halfword (operand : List Char) : Except Fault Int := integerWithin (-32768) 65535 operand

/-- A branch or jump destination written as a number. Where a label could stand, a word that is
no number is taken for a label that is missing. -/
def literalDestination (operand : List Char) : Except Fault Int :=
  match integer? operand with
  | some n => .ok n
  | none =>
    .error (if isLabel operand then .undefinedLabel (String.ofList operand)
      else .badImmediate (String.ofList operand))

/-- Distance in words from the instruction after `address`. -/
def branchOffset (labels : Labels) (address : Word) (operand : List Char) : Except Fault Int := do
  let offset ← match labels[operand]? with
    | some destination => pure ((destination - address.next).toInt.tdiv Word.bytes)
    | none => literalDestination operand
  if -32768 ≤ offset ∧ offset ≤ 32767 then pure offset
  else .error (.badImmediate (String.ofList operand))

/-- Word address of a jump destination. -/
def jumpWord (labels : Labels) (operand : List Char) : Except Fault Int :=
  match labels[operand]? with
  | some destination => pure destination.index
  | none => literalDestination operand

/-- An integer as the contents of a field. -/
def fieldOf (width : Nat) (n : Int) : Nat := (BitVec.ofInt width n).toNat

/-- How many operands a layout asks for. -/
def operandCount : Layout → Nat
  | .threeRegisters | .shift | .immediate | .memory | .branch => 3
  | .oneRegister | .jump => 1

def encodeOperands (labels : Labels) (address : Word) (op : Op) (operands : List (List Char)) :
    Except Fault Word :=
  let funct := (op.funct?.getD 0).toNat
  let opcode := op.opcode.toNat
  match op.layout, operands with
  | .threeRegisters, [d, s, t] => do
    let rd ← register d
    let rs ← register s
    let rt ← register t
    pure (Word.ofRegisterFields rs rt rd 0 funct)
  | .shift, [d, t, amount] => do
    let rd ← register d
    let rt ← register t
    let shamt ← shiftAmount amount
    pure (Word.ofRegisterFields 0 rt rd (fieldOf 5 shamt) funct)
  | .oneRegister, [s] => do
    let rs ← register s
    pure (Word.ofRegisterFields rs 0 0 0 funct)
  | .immediate, [t, s, value] => do
    let rt ← register t
    let rs ← register s
    let imm ← halfword value
    pure (Word.ofImmediateFields opcode rs rt (fieldOf 16 imm))
  | .memory, [t, s] => do
    let rt ← register t
    let rs ← register s
    pure (Word.ofImmediateFields opcode rs rt 0)
  | .memory, [t, offset, s] => do
    let rt ← register t
    let imm ← halfword offset
    let rs ← register s
    pure (Word.ofImmediateFields opcode rs rt (fieldOf 16 imm))
  | .branch, [s, t, destination] => do
    let rs ← register s
    let rt ← register t
    let offset ← branchOffset labels address destination
    pure (Word.ofImmediateFields opcode rs rt (fieldOf 16 offset))
  | .jump, [destination] => do
    let target ← jumpWord labels destination
    pure (Word.ofJumpFields opcode (fieldOf 26 target))
  | layout, _ => .error (.operandCount op.mnemonic (operandCount layout) operands.length)

/-- The word for the instruction `body` at `address`. A body of separators alone stands for the
word 0. -/
def encode (labels : Labels) (address : Word) (body : List Char) : Except Fault Word :=
  match Text.tokens isOperandSeparator body with
  | [] => .ok 0
  | head :: operands =>
    let name := String.ofList (head.map Char.toLower)
    if name = "nop" then
      if operands = [] then .ok 0 else .error (.operandCount name 0 operands.length)
    else match Op.ofMnemonic? name with
      | some op => encodeOperands labels address op operands
      | none => .error (.unknownMnemonic (String.ofList head))

end MipsPipeline.Assembly
