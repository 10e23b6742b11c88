import MipsPipeline.Machine
import MipsPipeline.Pipeline.Branch
import MipsPipeline.Pipeline.Bypass

/-
The five stages. Each is a function of the latch in front of it and of the part of the machine
that it uses; when a stage runs, and what a stall or a redirect makes of its output, is decided by
the cycle.
-/
namespace MipsPipeline

/-- Fetch: the instruction at the program counter. -/
def Machine.fetch (m : Machine) : Slot Fetched :=
  match m.current? with
  | some inst => .valid ⟨m.pc, inst⟩
  | none => .empty

structure Decoding where
  entry : Decoded
  /-- Where a jump to a fixed target goes. -/
  jump : Option Word
  deriving DecidableEq, Repr

/-- The register an instruction writes under its control signals; 0 if it writes none. -/
def Control.destination (control : Control) (inst : Instruction) : Nat :=
  if ¬ control.regWrite then 0
  else if control.link then Register.link
  else if control.regDst then inst.rd
  else inst.rt

/-- Decode: control signals, register contents and the target of a jump. -/
def Fetched.decode (f : Fetched) (registers : RegisterFile) : Decoding :=
  let control := Control.ofOp f.inst.op
  { entry := {
      pc := f.pc
      inst := f.inst
      rs := f.inst.rs
      rt := f.inst.rt
      rd := f.inst.rd
      dest := control.destination f.inst
      value1 := registers.read f.inst.rs
      value2 := registers.read f.inst.rt
      imm := f.inst.imm
      shamt := f.inst.shamt
      control := control }
    jump := if control.jump then some (f.inst.jumpTarget f.pc) else none }

structure Execution where
  entry : Executed
  /-- Where a taken branch or a jump through a register goes. -/
  redirect : Option Word
  deriving DecidableEq, Repr

namespace Decoded

def operandA (d : Decoded) (rs rt : Word) : Word :=
  match d.control.a with
  | .rs => rs
  | .rt => rt
  | .pc => d.pc

def operandB (d : Decoded) (rt : Word) : Word :=
  if d.control.aluSrc then d.imm
  else match d.control.b with
    | .rt => rt
    | .shamt => d.shamt
    | .four => 4

/-- Execute: bypassing, the arithmetic-logic unit and branch resolution. -/
def execute (d : Decoded) (exMem : Slot Executed) (memWb : Slot Accessed) : Execution :=
  let (sourceA, rs) := Bypass.operand d.inst d.rs d.value1 exMem memWb
  let (sourceB, rt) := Bypass.operand d.inst d.rt d.value2 exMem memWb
  let result := d.control.alu.apply (d.operandA rs rt) (d.operandB rt)
  let redirect := (Resolution.resolve? d.control d.inst d.pc rs rt).bind Resolution.redirect?
  { entry := {
      pc := d.pc
      inst := d.inst
      result := result
      storeData := rt
      dest := d.dest
      zero := result = 0
      taken := redirect.isSome
      sourceA := sourceA
      sourceB := sourceB
      control := d.control }
    redirect := redirect }

end Decoded

namespace Executed

def loaded (e : Executed) (data : DataMemory) : Word :=
  if e.control.memRead then data.load e.result else 0

/-- Data memory after the store of the instruction, if it is one. -/
def stored (e : Executed) (data : DataMemory) : DataMemory :=
  if e.control.memWrite then data.store e.result e.storeData else data

/-- Memory access: the entry for writeback, from data memory as it was before. -/
def access (e : Executed) (data : DataMemory) : Accessed :=
  let loaded := e.loaded data
  { pc := e.pc
    inst := e.inst
    result := e.result
    loaded := loaded
    writeData := if e.control.memToReg then loaded else e.result
    dest := e.dest
    control := e.control }

end Executed

namespace Accessed

/-- The register write of the instruction: never to register 0. -/
def write? (a : Accessed) : Option (Nat × Word) :=
  if a.control.regWrite ∧ a.dest ≠ 0 then some (a.dest, a.writeData) else none

/-- Writeback. -/
def retire (a : Accessed) (registers : RegisterFile) : RegisterFile :=
  match a.write? with
  | some (register, value) => registers.write register value
  | none => registers

end Accessed

end MipsPipeline
