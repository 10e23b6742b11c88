import MipsPipeline.Proofs.Clock

/-
Transfers of control. What decode and execute do to the program counter is fixed by the operation,
as long as ID/EX carries the control signals of its instruction, and decode sees to that.
-/
namespace MipsPipeline

def Op.FixedJump (op : Op) : Prop := op = .j ∨ op = .jal

instance (op : Op) : Decidable op.FixedJump := inferInstanceAs (Decidable (_ ∨ _))

theorem Control.jump_iff (op : Op) : (ofOp op).jump = true ↔ op.FixedJump := by
  cases op <;> decide

theorem Fetched.jump_eq_some_iff (f : Fetched) (registers : RegisterFile) {target : Word} :
    (f.decode registers).jump = some target ↔
      f.inst.op.FixedJump ∧ f.inst.jumpTarget f.pc = target := by
  rw [← Control.jump_iff]
  by_cases jump : (Control.ofOp f.inst.op).jump = true
  · simp [decode, jump]
  · simp [decode, jump]

/-- Where the operands `a` and `b` send an instruction in execute. -/
def Instruction.BranchesTo (i : Instruction) (pc a b target : Word) : Prop :=
  (i.op = .jr ∧ a = target) ∨
    (i.op = .beq ∧ a = b ∨ i.op = .bne ∧ a ≠ b) ∧ i.branchTarget pc = target

instance (i : Instruction) (pc a b target : Word) : Decidable (i.BranchesTo pc a b target) :=
  inferInstanceAs (Decidable (_ ∨ _))

theorem Resolution.redirect?_ofOp (i : Instruction) (pc a b target : Word) :
    (resolve? (Control.ofOp i.op) i pc a b).bind redirect? = some target ↔
      i.BranchesTo pc a b target := by
  unfold Instruction.BranchesTo
  cases op : i.op <;>
    simp [Control.ofOp, Control.registerForm, Control.shiftForm, Control.immediateForm, resolve?,
      redirect?, op]

namespace Latches

variable {l : Latches} {target : Word}

/-- What is in ID/EX is what decode makes of its instruction. -/
def AsDecoded (l : Latches) : Prop :=
  ∀ d ∈ l.idEx.entry?, ∃ registers, d = d.inst.decoded d.pc registers

/-- What is in ID/EX carries the control signals of its operation. -/
def Controlled (l : Latches) : Prop := ∀ d ∈ l.idEx.entry?, d.control = Control.ofOp d.inst.op

/-- Execute takes a branch or a jump through a register. -/
def Branches (l : Latches) (target : Word) : Prop :=
  ∃ d ∈ l.idEx.entry?, d.inst.BranchesTo d.pc
    (Bypass.operand d.inst d.rs d.value1 l.exMem l.memWb).2
    (Bypass.operand d.inst d.rt d.value2 l.exMem l.memWb).2 target

instance (l : Latches) (target : Word) : Decidable (l.Branches target) :=
  inferInstanceAs (Decidable (∃ d ∈ l.idEx.entry?, _))

/-- A jump to a fixed target is in decode. -/
def Jumps (l : Latches) (target : Word) : Prop :=
  ∃ f ∈ l.ifId.entry?, f.inst.op.FixedJump ∧ f.inst.jumpTarget f.pc = target

instance (l : Latches) (target : Word) : Decidable (l.Jumps target) :=
  inferInstanceAs (Decidable (∃ f ∈ l.ifId.entry?, _))

theorem asDecoded_empty : AsDecoded {} := by
  intro d inside
  simp [Slot.entry?] at inside

theorem AsDecoded.controlled (asDecoded : l.AsDecoded) : l.Controlled := by
  intro d inside
  obtain ⟨registers, same⟩ := asDecoded d inside
  rw [same]
  rfl

theorem controlled_empty : Controlled {} := asDecoded_empty.controlled

theorem redirect?_eq_some_iff (controlled : l.Controlled) :
    l.execute.redirect? = some target ↔ l.Branches target := by
  unfold execute Branches
  cases idEx : l.idEx with
  | empty => simp [Slot.map, Slot.redirect?, Slot.entry?]
  | bubble => simp [Slot.map, Slot.redirect?, Slot.entry?]
  | valid d =>
    have control : d.control = Control.ofOp d.inst.op := controlled d (by rw [idEx]; rfl)
    have taken := Resolution.redirect?_ofOp d.inst d.pc
      (Bypass.operand d.inst d.rs d.value1 l.exMem l.memWb).2
      (Bypass.operand d.inst d.rt d.value2 l.exMem l.memWb).2 target
    rw [← control] at taken
    simpa [Slot.map, Slot.redirect?, Slot.entry?, Decoded.execute] using taken

theorem jump_eq_some_iff (registers : RegisterFile) :
    l.Jumps target ↔ ∃ f ∈ l.ifId.entry?, (f.decode registers).jump = some target := by
  simp only [Jumps, Fetched.jump_eq_some_iff]

theorem Branches.unique {target' : Word} (first : l.Branches target)
    (second : l.Branches target') : target = target' := by
  obtain ⟨d, inside, taken⟩ := first
  obtain ⟨d', inside', taken'⟩ := second
  obtain rfl : d = d' := Option.some.inj (inside.symm.trans inside')
  rcases taken with ⟨jr, rfl⟩ | ⟨branch, rfl⟩
  · rcases taken' with ⟨-, rfl⟩ | ⟨branch', -⟩
    · rfl
    · simp [jr] at branch'
  · rcases taken' with ⟨jr, -⟩ | ⟨-, rfl⟩
    · simp [jr] at branch
    · rfl

theorem Jumps.unique {target' : Word} (first : l.Jumps target) (second : l.Jumps target') :
    target = target' := by
  obtain ⟨f, inside, -, rfl⟩ := first
  obtain ⟨f', inside', -, rfl⟩ := second
  obtain rfl : f = f' := Option.some.inj (inside.symm.trans inside')
  rfl

/-- The instruction that a stall waits for is a load, which goes nowhere. -/
theorem Branches.not_loadUse (branches : l.Branches target) (controlled : l.Controlled) :
    ¬ LoadUse l.idEx l.ifId := by
  rintro ⟨load, inside', -, -, memRead, -⟩
  obtain ⟨d, inside, taken⟩ := branches
  obtain rfl : d = load := Option.some.inj (inside.symm.trans inside')
  rw [controlled d inside, Control.memRead_iff] at memRead
  simp [Instruction.BranchesTo, memRead] at taken

end Latches

/-- Whatever ID/EX held before, decode fills it. -/
theorem Cycle.asDecoded_latches (m : Machine) (l : Latches) :
    ((start m l).latches l).AsDecoded := by
  intro d inside
  simp only [latches, start, Latches.decode] at inside
  cases ifId : l.ifId with
  | empty => simp [ifId, Activity.output, Slot.map, Slot.entry?] at inside
  | bubble => simp [ifId, Activity.output, Slot.map, Slot.entry?] at inside
  | valid f =>
    simp only [ifId] at inside
    split at inside
    · simp [Activity.output, Slot.map, Slot.entry?] at inside
    · split at inside
      · simp [Activity.output, Slot.map, Slot.entry?] at inside
      · obtain rfl : (f.decode (l.memWb.retire m.registers)).entry = d := by
          simpa [Activity.output, Slot.map, Slot.entry?] using inside
        exact ⟨_, rfl⟩

theorem Cycle.controlled_latches (m : Machine) (l : Latches) :
    ((start m l).latches l).Controlled := (asDecoded_latches m l).controlled

end MipsPipeline
