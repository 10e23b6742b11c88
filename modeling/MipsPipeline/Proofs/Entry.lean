import MipsPipeline.Proofs.Bypass
import MipsPipeline.Proofs.Pace

/-
What an entry of a latch has to hold to carry the instruction that a sequential machine is about
to execute, and what the stages make of entries that do.
-/
namespace MipsPipeline

namespace Machine

variable {m : Machine} {i : Instruction}

theorem branches_iff (here : m.current? = some i) :
    m.Branches ↔ i.op = .jr ∨
      (i.op = .beq ∧ m.registers.read i.rs = m.registers.read i.rt) ∨
      (i.op = .bne ∧ m.registers.read i.rs ≠ m.registers.read i.rt) := by
  simp [Branches, here]

theorem jumps_iff (here : m.current? = some i) : m.Jumps ↔ i.op = .j ∨ i.op = .jal := by
  simp [Jumps, here]

theorem pc_step_of_sequential (straight : ¬ m.Branches) (onward : ¬ m.Jumps) :
    m.step.pc = m.pc.next := by
  cases here : m.current? with
  | none => rw [step_of_unloaded here]
  | some i =>
    rw [branches_iff here] at straight
    rw [jumps_iff here] at onward
    rw [step_of_current here]
    cases op : i.op <;> simp_all [apply, Instruction.effect]

end Machine

/-- An instruction in execute redirects fetch just if it branches. -/
theorem Decoded.redirect_decoded {m : Machine} {i : Instruction} {a b : Word}
    (here : m.current? = some i) (operands : i.Operands m.registers a b) (stale : RegisterFile) :
    (i.decoded m.pc stale).redirect a b = if m.Branches then some m.step.pc else none := by
  obtain ⟨first, second⟩ := operands
  simp only [Instruction.sources] at first second
  simp only [m.branches_iff here, Machine.step_of_current here, Machine.apply, Decoded.redirect]
  cases op : i.op <;> simp [op, Op.layout] at first second <;>
    simp [op, Instruction.decoded, Fetched.decode, Control.ofOp, Control.registerForm,
      Control.shiftForm, Control.immediateForm, Instruction.effect, Resolution.resolve?,
      Resolution.redirect?, first, second]
  all_goals split <;> simp_all

/-- An instruction in decode redirects fetch just if it jumps. -/
theorem Fetched.jump_decode {m : Machine} {i : Instruction} (here : m.current? = some i)
    (registers : RegisterFile) :
    ((⟨m.pc, i⟩ : Fetched).decode registers).jump = if m.Jumps then some m.step.pc else none := by
  simp only [m.jumps_iff here, Machine.step_of_current here, Machine.apply, Fetched.decode]
  cases op : i.op <;>
    simp [op, Control.ofOp, Control.registerForm, Control.shiftForm, Control.immediateForm,
      Instruction.effect]

theorem Control.memRead_iff (op : Op) : (ofOp op).memRead = true ↔ op = .lw := by
  cases op <;> decide

theorem Control.memToReg_eq_memRead (op : Op) : (ofOp op).memToReg = (ofOp op).memRead := by
  cases op <;> rfl

theorem Control.destination_lw {i : Instruction} (load : i.op = .lw) :
    (ofOp i.op).destination i = i.rt := by
  simp [load, ofOp, immediateForm, destination]

/-- An entry of EX/MEM for the instruction of a machine, which computed its result and address
from the registers of that machine. -/
structure Executed.Carries (m : Machine) (i : Instruction) (e : Executed) : Prop where
  pc : e.pc = m.pc
  inst : e.inst = i
  control : e.control = Control.ofOp i.op
  dest : e.dest = (Control.ofOp i.op).destination i
  write : (i.effect m.pc m.registers m.data).write =
    if e.control.regWrite then
      some (e.dest, if e.control.memToReg then m.data.load e.result else e.result)
    else none
  store : (i.effect m.pc m.registers m.data).store =
    if e.control.memWrite then some (e.result, e.storeData) else none

/-- An entry of MEM/WB for the instruction of a machine, which has what it writes back. -/
structure Accessed.Carries (m : Machine) (i : Instruction) (a : Accessed) : Prop where
  pc : a.pc = m.pc
  inst : a.inst = i
  control : a.control = Control.ofOp i.op
  dest : a.dest = (Control.ofOp i.op).destination i
  write : (i.effect m.pc m.registers m.data).write =
    if a.control.regWrite then some (a.dest, a.writeData) else none

variable {m : Machine} {i : Instruction}

theorem Decoded.carries_execute {exMem : Slot Executed} {memWb : Slot Accessed}
    {registers : RegisterFile}
    (operands : i.Operands m.registers
      (Bypass.operand i i.rs (registers.read i.rs) exMem memWb).2
      (Bypass.operand i i.rt (registers.read i.rt) exMem memWb).2) :
    ((i.decoded m.pc registers).execute exMem memWb).entry.Carries m i := by
  have effect := Instruction.effect_decoded operands m.pc registers m.data
  exact {
    pc := rfl
    inst := rfl
    control := rfl
    dest := rfl
    write := by rw [← effect]; rfl
    store := by rw [← effect]; rfl }

theorem Decoded.redirect_execute {exMem : Slot Executed} {memWb : Slot Accessed}
    {registers : RegisterFile} (here : m.current? = some i)
    (operands : i.Operands m.registers
      (Bypass.operand i i.rs (registers.read i.rs) exMem memWb).2
      (Bypass.operand i i.rt (registers.read i.rt) exMem memWb).2) :
    ((i.decoded m.pc registers).execute exMem memWb).redirect =
      if m.Branches then some m.step.pc else none := by
  rw [← Decoded.redirect_decoded here operands registers]
  rfl

namespace Executed.Carries

variable {e : Executed}

theorem dest_lt (carries : e.Carries m i) : e.dest < Register.count :=
  carries.dest ▸ i.dest_lt

theorem access (carries : e.Carries m i) : (e.access m.data).Carries m i := by
  refine ⟨carries.pc, carries.inst, carries.control, carries.dest, ?_⟩
  have loads : e.control.memToReg = e.control.memRead := by
    rw [carries.control, Control.memToReg_eq_memRead]
  rw [carries.write]
  cases memRead : e.control.memRead <;> simp [Executed.access, Executed.loaded, loads, memRead]

theorem stored (carries : e.Carries m i) (here : m.current? = some i) :
    e.stored m.data = m.step.data := by
  have store := carries.store
  rw [Machine.step_of_current here]
  simp only [Executed.stored, Machine.apply, store]
  split <;> rfl

theorem ready (carries : e.Carries m i) {r : Nat} (notLoading : ¬ (i.op = .lw ∧ i.rt = r)) :
    Bypass.Ready e r where
  register := carries.dest_lt
  loads := by rw [carries.control, Control.memToReg_eq_memRead]; exact id
  notLoading := by
    rintro ⟨memRead, same⟩
    rw [carries.control, Control.memRead_iff] at memRead
    rw [carries.dest, Control.destination_lw memRead] at same
    exact notLoading ⟨memRead, same⟩

end Executed.Carries

namespace Accessed.Carries

variable {a : Accessed}

theorem dest_lt (carries : a.Carries m i) : a.dest < Register.count :=
  carries.dest ▸ i.dest_lt

theorem retire (carries : a.Carries m i) (here : m.current? = some i) :
    a.retire m.registers = m.step.registers := by
  rw [Machine.step_of_current here]
  simp only [Accessed.retire, Accessed.write?, Machine.apply, carries.write]
  by_cases regWrite : a.control.regWrite = true
  · by_cases zero : a.dest = 0
    · simp [regWrite, zero, RegisterFile.write]
    · simp [regWrite, zero]
  · simp [regWrite]

end Accessed.Carries

end MipsPipeline
