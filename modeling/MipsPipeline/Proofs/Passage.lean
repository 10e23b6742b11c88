import MipsPipeline.Proofs.Transfer

/-
Passages through an empty pipeline. An instruction that goes through the stages alone shows the
effect that it has: what it writes and stores, and where it sends control from decode or execute.
None of that depends on a register which the instruction does not count as read, so a stall or a
bypass that goes by what is read misses nothing.
-/
namespace MipsPipeline

/-- What the stages make of one instruction. -/
structure Passage where
  decoding : Decoding
  execution : Execution
  accessed : Accessed
  deriving DecidableEq, Repr

/-- What can be seen of an instruction from outside its latches. -/
structure Footprint where
  /-- The register written, never register 0, and its new contents. -/
  write : Option (Nat × Word)
  store : Option (Word × Word)
  /-- Where execute sends control. -/
  redirect : Option Word
  /-- Where decode sends control. -/
  jump : Option Word
  deriving DecidableEq, Repr

namespace Instruction

/-- The instruction at `pc` goes through the stages, with these latches behind execute. -/
def passage (i : Instruction) (pc : Word) (registers : RegisterFile) (data : DataMemory)
    (exMem : Slot Executed) (memWb : Slot Accessed) : Passage :=
  let decoding := (⟨pc, i⟩ : Fetched).decode registers
  let execution := decoding.entry.execute exMem memWb
  ⟨decoding, execution, execution.entry.access data⟩

/-- How an effect is seen. -/
def footprint (i : Instruction) (e : Effect) : Footprint where
  write := e.write.filter (·.1 ≠ 0)
  store := e.store
  redirect := if i.op.FixedJump then none else e.transfer
  jump := if i.op.FixedJump then e.transfer else none

end Instruction

namespace Passage

def store? (p : Passage) : Option (Word × Word) :=
  if p.execution.entry.control.memWrite then
    some (p.execution.entry.result, p.execution.entry.storeData)
  else none

def footprint (p : Passage) : Footprint where
  write := p.accessed.write?
  store := p.store?
  redirect := p.execution.redirect
  jump := p.decoding.jump

/-- The registers after writeback. -/
def registers (p : Passage) (before : RegisterFile) : RegisterFile := p.accessed.retire before

/-- Data memory after memory access. -/
def data (p : Passage) (before : DataMemory) : DataMemory := p.execution.entry.stored before

/-- The address of the next instruction. -/
def next (p : Passage) (pc : Word) : Word :=
  (p.execution.redirect.or p.decoding.jump).getD pc.next

end Passage

section

variable {exMem : Slot Executed} {memWb : Slot Accessed}

theorem Bypass.operand_of_nothing (i : Instruction) (r : Nat) (value : Word)
    (nothing : exMem.entry? = none) (nothing' : memWb.entry? = none) :
    (operand i r value exMem memWb).2 = value := by
  unfold operand resolve
  rw [nothing, nothing']
  split
  · split <;> rfl
  · rfl

theorem Accessed.Carries.write?_eq {m : Machine} {i : Instruction} {a : Accessed}
    (carries : a.Carries m i) :
    a.write? = (i.effect m.pc m.registers m.data).write.filter (·.1 ≠ 0) := by
  rw [carries.write, Accessed.write?]
  by_cases regWrite : a.control.regWrite = true
  · by_cases zero : a.dest = 0 <;> simp [regWrite, zero, Option.filter_some]
  · simp [regWrite]

namespace Instruction

variable (i : Instruction) (pc : Word) (registers : RegisterFile) (data : DataMemory)

variable {i} in
theorem redirect_of_fixedJump (jump : i.op.FixedJump) (a b : Word) :
    (i.decoded pc registers).redirect a b = none := by
  rcases jump with op | op
  · simp [Decoded.redirect, decoded, Fetched.decode, op, Control.ofOp, Resolution.resolve?]
  · simp [Decoded.redirect, decoded, Fetched.decode, op, Control.ofOp, Resolution.resolve?]

/-- An effect sends control from decode or from execute, but not from both. -/
theorem transfer_effect (a b : Word) (operands : i.Operands registers a b) :
    (i.decoded pc registers).redirect a b =
        (if i.op.FixedJump then none else (i.effect pc registers data).transfer) ∧
      ((⟨pc, i⟩ : Fetched).decode registers).jump =
        if i.op.FixedJump then (i.effect pc registers data).transfer else none := by
  have transfer := congrArg Effect.transfer (effect_decoded operands pc registers data)
  by_cases fixed : i.op.FixedJump
  · have control : (Control.ofOp i.op).jump = true := (Control.jump_iff i.op).mpr fixed
    rw [if_pos fixed, if_pos fixed, ← transfer]
    refine ⟨redirect_of_fixedJump pc registers fixed a b, ?_⟩
    simp [Decoded.effect, decoded, Fetched.decode, control]
  · have control : ¬ (Control.ofOp i.op).jump = true := mt (Control.jump_iff i.op).mp fixed
    rw [if_neg fixed, if_neg fixed, ← transfer]
    simp [Decoded.effect, decoded, Fetched.decode, control]

theorem footprint_passage (nothing : exMem.entry? = none) (nothing' : memWb.entry? = none) :
    (i.passage pc registers data exMem memWb).footprint =
      i.footprint (i.effect pc registers data) := by
  have operands : i.Operands registers
      (Bypass.operand i i.rs (registers.read i.rs) exMem memWb).2
      (Bypass.operand i i.rt (registers.read i.rt) exMem memWb).2 := by
    rw [Bypass.operand_of_nothing i _ _ nothing nothing',
      Bypass.operand_of_nothing i _ _ nothing nothing']
    exact i.operands_read registers
  have executed := Decoded.carries_execute (m := ⟨registers, pc, .unloaded 0, data⟩) operands
  have written := executed.access.write?_eq
  obtain ⟨redirect, jump⟩ := i.transfer_effect pc registers data _ _ operands
  rw [Passage.footprint, footprint, ← redirect, ← jump, executed.store, ← written]
  rfl

variable {i} in
theorem effect_congr {f g : RegisterFile} (agree : ∀ r, i.Reads r → f.read r = g.read r) :
    i.effect pc f data = i.effect pc g data := by
  have operand (r : Nat) (source : i.sources.1 = some r ∨ i.sources.2 = some r) :
      g.read r = f.read r := by
    by_cases zero : r = 0
    · rw [zero, RegisterFile.read_zero, RegisterFile.read_zero]
    · exact (agree r ⟨zero, source⟩).symm
  have operands : i.Operands f (g.read i.rs) (g.read i.rt) :=
    ⟨fun first => operand i.rs (.inl first), fun second => operand i.rt (.inr second)⟩
  rw [← effect_decoded operands pc f data, ← effect_decoded (i.operands_read g) pc f data]

theorem footprint_passage_congr {f g : RegisterFile}
    (agree : ∀ r, i.Reads r → f.read r = g.read r) (nothing : exMem.entry? = none)
    (nothing' : memWb.entry? = none) :
    (i.passage pc f data exMem memWb).footprint = (i.passage pc g data exMem memWb).footprint := by
  rw [i.footprint_passage pc f data nothing nothing',
    i.footprint_passage pc g data nothing nothing', effect_congr pc data agree]

end Instruction

end

namespace Instruction

/-- Two register files that differ in nothing but a register show the difference. -/
def DependsOn (i : Instruction) (r : Nat) : Prop :=
  ∃ pc data f g, (∀ q, q ≠ r → RegisterFile.read f q = RegisterFile.read g q) ∧
    (i.passage pc f data .empty .empty).footprint ≠ (i.passage pc g data .empty .empty).footprint

theorem DependsOn.reads {i : Instruction} {r : Nat} (depends : i.DependsOn r) : i.Reads r := by
  obtain ⟨pc, data, f, g, elsewhere, differ⟩ := depends
  refine Decidable.byContradiction ?_
  intro unread
  refine differ (i.footprint_passage_congr pc data ?_ rfl rfl)
  intro q reads
  refine elsewhere q ?_
  rintro rfl
  exact unread reads

/-- Registers that an instruction does not read make no difference to it. So behind a load of a
register that it depends on it has to wait, and otherwise it is given the latest contents. -/
theorem reads_cover_dependence (i : Instruction) :
    (∀ pc data f g exMem memWb, Slot.entry? exMem = none → Slot.entry? memWb = none →
      (∀ r, i.Reads r → RegisterFile.read f r = RegisterFile.read g r) →
      (i.passage pc f data exMem memWb).footprint = (i.passage pc g data exMem memWb).footprint) ∧
    ∀ r, i.DependsOn r →
      (∀ d : Decoded, d.control.memRead → d.dest = r → ∀ pc, LoadUse (.valid d) (.valid ⟨pc, i⟩)) ∧
      ∀ value exMem memWb,
        Bypass.operand i r value exMem memWb = Bypass.resolve r value exMem memWb := by
  refine ⟨?_, ?_⟩
  · intro pc data f g exMem memWb nothing nothing' agree
    exact i.footprint_passage_congr pc data agree nothing nothing'
  · intro r depends
    have reads := depends.reads
    refine ⟨?_, ?_⟩
    · rintro d load rfl pc
      exact ⟨d, rfl, ⟨pc, i⟩, rfl, load, reads.1, reads⟩
    · intro value exMem memWb
      exact if_pos reads

/-- `sw $t0, 4($t1)`. -/
def storing : Instruction := ⟨0xAD280004, .sw, rfl⟩

/-- `lw $t0, 0($zero)`. -/
def loading : Instruction := ⟨0x8C080000, .lw, rfl⟩

theorem reads_cover_dependence_store :
    (∀ r, storing.Reads r →
      RegisterFile.cleared.read r = (RegisterFile.cleared.write 10 7).read r) ∧
    (storing.passage 0 .cleared (.zeroed 4) .bubble .empty).footprint =
      (storing.passage 0 (RegisterFile.cleared.write 10 7) (.zeroed 4) .bubble .empty).footprint ∧
    storing.DependsOn 8 ∧ (loading.decoded 0 .cleared).control.memRead = true ∧
    (loading.decoded 0 .cleared).dest = 8 ∧
    LoadUse (.valid (loading.decoded 0 .cleared)) (.valid ⟨4, storing⟩) := by
  have agree : ∀ r, storing.Reads r →
      RegisterFile.cleared.read r = (RegisterFile.cleared.write 10 7).read r := by
    intro r reads
    have other : 10 ≠ r := by
      rintro rfl
      exact absurd reads (by decide)
    rw [RegisterFile.read_write, if_neg fun same => other same.1]
  have depends : storing.DependsOn 8 := by
    refine ⟨0, .zeroed 4, .cleared, RegisterFile.cleared.write 8 5, ?_, by decide⟩
    intro q other
    rw [RegisterFile.read_write, if_neg fun same => other same.1.symm]
  obtain ⟨unread, dependent⟩ := storing.reads_cover_dependence
  exact ⟨agree, unread 0 (.zeroed 4) .cleared _ .bubble .empty rfl rfl agree, depends, rfl, rfl,
    (dependent 8 depends).1 _ rfl rfl 4⟩

end Instruction

end MipsPipeline
