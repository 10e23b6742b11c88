import MipsPipeline.Proofs.Entry

/-
The pipeline follows the paced sequential machine. What is in writeback is the step that the paced
machine is about to take; memory access, execute and decode hold what it will take one, two and
three cycles later; fetch stands where it will then be, or waits to be sent there.
-/
namespace MipsPipeline

namespace Slot

variable {α β : Type}

@[simp] theorem entry?_map (f : α → β) (s : Slot α) : Slot.entry? (s.map f) = s.entry?.map f := by
  cases s <;> rfl

theorem eq_valid {s : Slot α} {entry : α} (inside : entry ∈ s.entry?) :
    s = .valid entry := by
  cases s with
  | empty => simp [Slot.entry?] at inside
  | bubble => simp [Slot.entry?] at inside
  | valid held =>
    obtain rfl : held = entry := by simpa [Slot.entry?] using inside
    rfl

end Slot

theorem Machine.mem_fetch {m : Machine} {f : Fetched} :
    f ∈ m.fetch.entry? ↔ m.pc = f.pc ∧ m.current? = some f.inst := by
  obtain ⟨pc, inst⟩ := f
  rw [fetch]
  cases m.current? with
  | none => simp [Slot.entry?]
  | some i => simp [Slot.entry?]

/-- A latch holds the instruction of a paced machine that is about to step, is empty if there is
none to execute, and holds nothing of it while it rests. -/
def Paced.Fills {α : Type} (p : Paced) (carries : Machine → Instruction → α → Prop) :
    Slot α → Prop
  | .valid entry => p.rest = 0 ∧ ∃ i, p.machine.current? = some i ∧ carries p.machine i entry
  | .empty => p.rest = 0 → p.machine.current? = none
  | .bubble => p.rest ≠ 0

/-- Execute on the contents of the latches. -/
def Latches.execute (l : Latches) : Slot Execution := l.idEx.map (·.execute l.exMem l.memWb)

/-- An entry of ID/EX as decode makes it from these registers. -/
def Decoded.Carries (registers : RegisterFile) (m : Machine) (i : Instruction) (d : Decoded) :
    Prop :=
  d = i.decoded m.pc registers

/-- IF/ID and the program counter for what is in execute. -/
inductive Front (p : Paced) (pc : Word) (ifId : Slot Fetched) : Prop where
  /-- The next step is in decode. -/
  | ready (now : p.tick.rest = 0) (held : ifId = p.tick.machine.fetch)
      (next : pc = p.tick.machine.pc.next)
  /-- The next step is in decode, and waits for a load. -/
  | stalled (now : p.rest = 0) (feeds : p.machine.FeedsNext)
      (held : ifId = p.machine.step.fetch) (next : pc = p.machine.step.pc.next)
  /-- The next step is about to be fetched. -/
  | refilling (soon : p.tick.rest = 1) (nothing : ifId.entry? = none)
      (next : pc = p.tick.machine.pc)
  /-- A branch is about to be taken. -/
  | squashing (now : p.rest = 0) (branches : p.machine.Branches)

/-- The machine and the latches of a pipeline follow a paced machine. -/
structure Follows (p : Paced) (m : Machine) (l : Latches) : Prop where
  code : m.code = p.machine.code
  registers : m.registers = p.machine.registers
  data : m.data = p.tick.machine.data
  memWb : p.Fills Accessed.Carries l.memWb
  exMem : p.tick.Fills Executed.Carries l.exMem
  idEx : p.tick.tick.Fills (Decoded.Carries m.registers) l.idEx
  front : Front p.tick.tick m.pc l.ifId

namespace Paced

variable {p : Paced}

namespace Fills

variable {α β : Type} {carries : Machine → Instruction → α → Prop}
  {carries' : Machine → Instruction → β → Prop}

theorem of_rest {slot : Slot α} (resting : p.rest ≠ 0) (nothing : slot.entry? = none) :
    p.Fills carries slot := by
  cases slot with
  | empty => exact fun now => absurd now resting
  | bubble => exact resting
  | valid entry => simp [Slot.entry?] at nothing

theorem of_entry {slot : Slot α} (fills : p.Fills carries slot) {entry : α}
    (inside : entry ∈ slot.entry?) :
    p.rest = 0 ∧ ∃ i, p.machine.current? = some i ∧ carries p.machine i entry := by
  rw [Slot.eq_valid inside] at fills
  exact fills

theorem forall_entry {slot : Slot α} (fills : p.Fills carries slot) {P : α → Prop}
    (carried : ∀ m i entry, carries m i entry → P entry) : ∀ entry ∈ slot.entry?, P entry := by
  intro entry inside
  obtain ⟨-, i, -, carries⟩ := fills.of_entry inside
  exact carried _ i entry carries

theorem exists_entry {slot : Slot α} (fills : p.Fills carries slot) (now : p.rest = 0)
    {i : Instruction} (here : p.machine.current? = some i) :
    ∃ entry, slot = .valid entry ∧ carries p.machine i entry := by
  cases slot with
  | empty => exact absurd (fills now) (by simp [here])
  | bubble => exact absurd now fills
  | valid entry =>
    obtain ⟨-, j, there, carried⟩ := fills
    obtain rfl : i = j := Option.some.inj (here.symm.trans there)
    exact ⟨entry, rfl, carried⟩

theorem map {slot : Slot α} (fills : p.Fills carries slot) {f : α → β}
    (kept : ∀ i entry, slot = .valid entry → p.machine.current? = some i →
      carries p.machine i entry → carries' p.machine i (f entry)) :
    p.Fills carries' (slot.map f) := by
  cases slot with
  | empty => exact fills
  | bubble => exact fills
  | valid entry =>
    obtain ⟨now, i, here, carried⟩ := fills
    exact ⟨now, i, here, kept i entry rfl here carried⟩

/-- The part of the machine that an unoccupied latch leaves alone is left alone by the step. -/
theorem tick_eq_of_no_entry {γ : Type} {slot : Slot α} (fills : p.Fills carries slot)
    (nothing : slot.entry? = none) (view : Machine → γ)
    (pcOnly : ∀ (m : Machine) (pc : Word), view { m with pc := pc } = view m) :
    view p.tick.machine = view p.machine := by
  by_cases now : p.rest = 0
  · rw [tick_of_step now]
    have unloaded : p.machine.current? = none := by
      cases slot with
      | empty => exact fills now
      | bubble => exact absurd now fills
      | valid entry => simp [Slot.entry?] at nothing
    rw [Machine.step_of_unloaded unloaded, pcOnly]
  · rw [machine_tick_of_rest now]

theorem retire {memWb : Slot Accessed} (fills : p.Fills Accessed.Carries memWb) :
    memWb.retire p.machine.registers = p.tick.machine.registers := by
  cases memWb with
  | empty => exact (fills.tick_eq_of_no_entry rfl Machine.registers fun _ _ => rfl).symm
  | bubble => exact (fills.tick_eq_of_no_entry rfl Machine.registers fun _ _ => rfl).symm
  | valid a =>
    obtain ⟨now, i, here, carried⟩ := fills
    rw [tick_of_step now]
    exact carried.retire here

theorem stored {exMem : Slot Executed} (fills : p.Fills Executed.Carries exMem) :
    exMem.stored p.machine.data = p.tick.machine.data := by
  cases exMem with
  | empty => exact (fills.tick_eq_of_no_entry rfl Machine.data fun _ _ => rfl).symm
  | bubble => exact (fills.tick_eq_of_no_entry rfl Machine.data fun _ _ => rfl).symm
  | valid e =>
    obtain ⟨now, i, here, carried⟩ := fills
    rw [tick_of_step now]
    exact carried.stored here

theorem access {exMem : Slot Executed} (fills : p.Fills Executed.Carries exMem) :
    p.Fills Accessed.Carries (exMem.map (·.access p.machine.data)) :=
  fills.map fun _ _ _ _ carried => carried.access

end Fills

end Paced

namespace Follows

variable {p : Paced} {m : Machine} {l : Latches}

theorem registers_retire (follows : Follows p m l) :
    l.memWb.retire m.registers = p.tick.machine.registers := by
  rw [follows.registers]
  exact follows.memWb.retire

theorem data_stored (follows : Follows p m l) :
    l.exMem.stored m.data = p.tick.tick.machine.data := by
  rw [follows.data]
  exact follows.exMem.stored

theorem fills_access (follows : Follows p m l) :
    p.tick.Fills Accessed.Carries (l.exMem.map (·.access m.data)) := by
  rw [follows.data]
  exact follows.exMem.access

theorem bypass_ready (follows : Follows p m l) {i : Instruction}
    (now : p.tick.tick.rest = 0) (here : p.tick.tick.machine.current? = some i) {r : Nat}
    (reads : i.Reads r) : ∀ e ∈ l.exMem.entry?, Bypass.Ready e r := by
  intro e inside
  obtain ⟨before, j, there, carried⟩ := follows.exMem.of_entry inside
  apply carried.ready
  -- A load right in front of its user makes the paced machine rest between the two.
  rintro ⟨load, rfl⟩
  rw [Paced.tick_of_step before] at now here
  have feeds : p.tick.machine.FeedsNext := ⟨j, there, load, reads.1, i, here, reads⟩
  simp [Machine.delay_of_feedsNext feeds] at now

theorem operands (follows : Follows p m l) {i : Instruction}
    (now : p.tick.tick.rest = 0) (here : p.tick.tick.machine.current? = some i) :
    i.Operands p.tick.tick.machine.registers
      (Bypass.operand i i.rs (m.registers.read i.rs) l.exMem l.memWb).2
      (Bypass.operand i i.rt (m.registers.read i.rt) l.exMem l.memWb).2 := by
  apply Bypass.operands
  intro r reads
  have written : ∀ a ∈ l.memWb.entry?, a.dest < Register.count := by
    intro a inside
    obtain ⟨-, j, -, carried⟩ := follows.memWb.of_entry inside
    exact carried.dest_lt
  rw [Bypass.resolve_eq_read m.data reads.1 written
    (follows.bypass_ready now here reads), follows.registers_retire, follows.fills_access.retire]

theorem fills_execute (follows : Follows p m l) :
    p.tick.tick.Fills Executed.Carries (l.execute.map (·.entry)) := by
  have fills := follows.idEx
  unfold Latches.execute
  cases idEx : l.idEx with
  | empty => rw [idEx] at fills; exact fills
  | bubble => rw [idEx] at fills; exact fills
  | valid d =>
    rw [idEx] at fills
    obtain ⟨now, i, here, rfl⟩ := fills
    exact ⟨now, i, here, Decoded.carries_execute (follows.operands now here)⟩

theorem redirect_of_branches (follows : Follows p m l) (now : p.tick.tick.rest = 0)
    (branches : p.tick.tick.machine.Branches) :
    l.execute.redirect? = some p.tick.tick.machine.step.pc := by
  have ⟨i, here, _⟩ := branches
  obtain ⟨d, idEx, rfl⟩ := follows.idEx.exists_entry now here
  have redirect := Decoded.redirect_execute here (follows.operands now here)
  simpa [Latches.execute, idEx, Slot.map, Slot.redirect?, Slot.entry?, branches] using redirect

theorem redirect_of_not_branches (follows : Follows p m l)
    (straight : p.tick.tick.rest = 0 → ¬ p.tick.tick.machine.Branches) :
    l.execute.redirect? = none := by
  unfold Latches.execute
  cases idEx : l.idEx with
  | empty => rfl
  | bubble => rfl
  | valid d =>
    have inside : d ∈ l.idEx.entry? := by rw [idEx]; rfl
    obtain ⟨now, i, here, rfl⟩ := follows.idEx.of_entry inside
    have redirect := Decoded.redirect_execute here (follows.operands now here)
    simpa [Slot.map, Slot.redirect?, Slot.entry?, straight now] using redirect

theorem load_of_loadUse (follows : Follows p m l) (loadUse : LoadUse l.idEx l.ifId) :
    p.tick.tick.rest = 0 ∧ ∃ i, p.tick.tick.machine.current? = some i ∧ i.op = .lw ∧ i.rt ≠ 0 ∧
      ∃ f ∈ l.ifId.entry?, f.inst.Reads i.rt := by
  obtain ⟨d, loading, f, using', memRead, nonzero, reads⟩ := loadUse
  obtain ⟨now, i, here, rfl⟩ := follows.idEx.of_entry loading
  have load : i.op = .lw := (Control.memRead_iff i.op).mp memRead
  have dest : (i.decoded p.tick.tick.machine.pc m.registers).dest = i.rt :=
    Control.destination_lw load
  rw [dest] at nonzero reads
  exact ⟨now, i, here, load, nonzero, f, using', reads⟩

theorem no_stall_of_rest (follows : Follows p m l) (resting : p.tick.tick.rest ≠ 0) :
    ¬ LoadUse l.idEx l.ifId := fun loadUse => resting (follows.load_of_loadUse loadUse).1

theorem no_stall_of_branches (follows : Follows p m l) (branches : p.tick.tick.machine.Branches) :
    ¬ LoadUse l.idEx l.ifId := by
  intro loadUse
  obtain ⟨-, i, here, load, -⟩ := follows.load_of_loadUse loadUse
  rw [Machine.branches_iff here] at branches
  simp [load] at branches

theorem no_stall_of_nothing (nothing : l.ifId.entry? = none) : ¬ LoadUse l.idEx l.ifId := by
  rintro ⟨-, -, f, inside, -⟩
  simp [nothing] at inside

theorem loadUse_iff_feedsNext (follows : Follows p m l) (now : p.tick.tick.rest = 0)
    (held : l.ifId = p.tick.tick.machine.step.fetch) :
    LoadUse l.idEx l.ifId ↔ p.tick.tick.machine.FeedsNext := by
  constructor
  · intro loadUse
    obtain ⟨-, i, here, load, nonzero, f, inside, reads⟩ := follows.load_of_loadUse loadUse
    rw [held, Machine.mem_fetch] at inside
    exact ⟨i, here, load, nonzero, f.inst, inside.2, reads⟩
  · rintro ⟨i, here, load, nonzero, j, there, reads⟩
    obtain ⟨d, idEx, rfl⟩ := follows.idEx.exists_entry now here
    have dest : (i.decoded p.tick.tick.machine.pc m.registers).dest = i.rt :=
      Control.destination_lw load
    have memRead : (i.decoded p.tick.tick.machine.pc m.registers).control.memRead = true :=
      (Control.memRead_iff i.op).mpr load
    have user : ⟨p.tick.tick.machine.step.pc, j⟩ ∈ l.ifId.entry? := by
      rw [held]
      exact Machine.mem_fetch.mpr ⟨rfl, there⟩
    exact ⟨_, by rw [idEx]; rfl, _, user, memRead, by rwa [dest], by rwa [dest]⟩

end Follows

end MipsPipeline
