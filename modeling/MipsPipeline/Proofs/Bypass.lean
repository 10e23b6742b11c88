import MipsPipeline.Pipeline.Cycle
import MipsPipeline.Proofs.Datapath

/-
Bypassing is as good as waiting. The value that an operand is given is the one the register will
have when the two older instructions have written back, except behind a load in EX/MEM, whose data
has not been read yet.
-/
namespace MipsPipeline

namespace Bypass

variable {registers : RegisterFile} {data : DataMemory} {exMem : Slot Executed}
  {memWb : Slot Accessed} {r : Nat}

theorem read_retire_of_writes {a : Accessed} (writes : Writes a r) (nonzero : r ≠ 0)
    (register : a.dest < Register.count) : (a.retire registers).read r = a.writeData := by
  obtain ⟨regWrite, rfl⟩ := writes
  simp [Accessed.retire, Accessed.write?, regWrite, nonzero, RegisterFile.read_write, register]

theorem read_retire_of_not_writes {a : Accessed} (other : ¬ Writes a r) :
    (a.retire registers).read r = registers.read r := by
  simp only [Accessed.retire, Accessed.write?]
  by_cases regWrite : a.control.regWrite = true ∧ a.dest ≠ 0
  · have differs : a.dest ≠ r := fun same => other ⟨regWrite.1, same⟩
    simp [regWrite, RegisterFile.read_write, differs]
  · simp [regWrite]

/-- What writeback makes of a register is the value bypassed from MEM/WB. -/
theorem read_retire (registers : RegisterFile) (nonzero : r ≠ 0)
    (register : ∀ a ∈ memWb.entry?, a.dest < Register.count) :
    (memWb.retire registers).read r =
      match memWb.entry?.filter (Writes · r) with
      | some a => a.writeData
      | none => registers.read r := by
  cases memWb with
  | empty => rfl
  | bubble => rfl
  | valid a =>
    by_cases writes : Writes a r
    · simpa [Slot.retire, Slot.entry?, Option.filter_some, writes] using
        read_retire_of_writes writes nonzero (register a rfl)
    · simpa [Slot.retire, Slot.entry?, Option.filter_some, writes] using
        read_retire_of_not_writes writes

/-- An entry of EX/MEM that can be bypassed from, or does not write the register. -/
structure Ready (e : Executed) (r : Nat) : Prop where
  register : e.dest < Register.count
  loads : e.control.memToReg = true → e.control.memRead = true
  notLoading : ¬ (e.control.memRead = true ∧ e.dest = r)

theorem writes_access_iff (data : DataMemory) {e : Executed} (ready : Ready e r) :
    Writes (e.access data) r ↔ Computes e r := by
  simp only [Writes, Computes, Executed.access]
  constructor
  · rintro ⟨regWrite, same⟩
    exact ⟨regWrite, fun memRead => ready.notLoading ⟨memRead, same⟩, same⟩
  · rintro ⟨regWrite, -, same⟩
    exact ⟨regWrite, same⟩

theorem writeData_access {e : Executed} (ready : Ready e r) (computes : Computes e r) :
    (e.access data).writeData = e.result := by
  have noLoad : e.control.memToReg = false := by
    by_cases memToReg : e.control.memToReg = true
    · exact absurd (ready.loads memToReg) computes.2.1
    · simpa using memToReg
  simp [Executed.access, noLoad]

theorem resolve_eq_read (data : DataMemory) (nonzero : r ≠ 0)
    (register : ∀ a ∈ memWb.entry?, a.dest < Register.count)
    (ready : ∀ e ∈ exMem.entry?, Ready e r) :
    (resolve r (registers.read r) exMem memWb).2 =
      ((exMem.map (·.access data)).retire (memWb.retire registers)).read r := by
  have older := read_retire registers nonzero register
  have fromMemWb (s : Slot Executed) (none : s.entry?.filter (Computes · r) = none) :
      (resolve r (registers.read r) s memWb).2 = (memWb.retire registers).read r := by
    rw [older]
    simp only [resolve, nonzero, ↓reduceIte, none]
    cases memWb.entry?.filter (Writes · r) <;> rfl
  cases exMem with
  | empty => exact fromMemWb .empty rfl
  | bubble => exact fromMemWb .bubble rfl
  | valid e =>
    have ready := ready e rfl
    by_cases computes : Computes e r
    · have writes := (writes_access_iff data ready).mpr computes
      rw [Slot.map, Slot.retire, read_retire_of_writes writes nonzero ready.register,
        writeData_access ready computes]
      simp [resolve, nonzero, Slot.entry?, Option.filter_some, computes]
    · have other := mt (writes_access_iff data ready).mp computes
      rw [Slot.map, Slot.retire, read_retire_of_not_writes other]
      exact fromMemWb (.valid e) (by simp [Slot.entry?, Option.filter_some, computes])

theorem operands {i : Instruction} {now : RegisterFile}
    (resolved : ∀ r, i.Reads r → (resolve r (registers.read r) exMem memWb).2 = now.read r) :
    i.Operands now (operand i i.rs (registers.read i.rs) exMem memWb).2
      (operand i i.rt (registers.read i.rt) exMem memWb).2 := by
  have right (r : Nat) (source : i.sources.1 = some r ∨ i.sources.2 = some r) :
      (operand i r (registers.read r) exMem memWb).2 = now.read r := by
    by_cases zero : r = 0
    · subst zero
      simp [operand, Instruction.Reads]
    · have reads : i.Reads r := ⟨zero, source⟩
      simpa [operand, reads] using resolved r reads
  exact ⟨fun first => right _ (.inl first), fun second => right _ (.inr second)⟩

end Bypass

end MipsPipeline
