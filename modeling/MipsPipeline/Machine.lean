import MipsPipeline.Memory.Code
import MipsPipeline.Memory.Data
import MipsPipeline.Register.File
import MipsPipeline.Settings.Basic

/-
Architectural state: everything that an instruction can observe or change.
-/
namespace MipsPipeline

structure Machine where
  registers : RegisterFile
  /-- Address of the next fetch. -/
  pc : Word
  code : CodeMemory
  data : DataMemory
  deriving DecidableEq, Repr

namespace Machine

def ofSettings (s : Settings) : Machine where
  registers := .cleared
  pc := s.startPc
  code := .unloaded s.codeWords
  data := .zeroed s.dataWords

/-- The instruction at the program counter, if one is loaded there. -/
def current? (m : Machine) : Option Instruction := m.code.fetch m.pc

/-- Unloads the program and moves to `pc`; registers and data are cleared on request only. -/
def reset (m : Machine) (clearRegisters clearData : Bool) (pc : Word) : Machine where
  registers := if clearRegisters then .cleared else m.registers
  pc := pc
  code := m.code.clear
  data := if clearData then m.data.clear else m.data

end Machine

end MipsPipeline
