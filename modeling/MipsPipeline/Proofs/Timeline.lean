import Mathlib.Data.List.Chain
import MipsPipeline.Proofs.Transfer

/-
The timeline of consecutive cycles. Records are made of the stages and latches are made of the
stages, each for itself; still a record shows what the latch behind the stage is going to hold, and
the record of the next stage in the next cycle goes on from there. A stall ends after one cycle,
because the stage behind it has been given a bubble.
-/
namespace MipsPipeline

def Fetched.located (f : Fetched) : Word × Instruction := (f.pc, f.inst)
def Decoded.located (d : Decoded) : Word × Instruction := (d.pc, d.inst)
def Executed.located (e : Executed) : Word × Instruction := (e.pc, e.inst)
def Accessed.located (a : Accessed) : Word × Instruction := (a.pc, a.inst)

/-- What a stage makes of a slot in front of it. -/
def Slot.state {α : Type} : Slot α → StageState
  | .empty => .empty
  | .bubble => .bubble
  | .valid _ => .instr

namespace Activity

variable {α β : Type}

/-- The entry of an instruction that got through. -/
def active? : Activity α → Option α
  | .active entry => some entry
  | _ => none

/-- What fetch does with what it finds. -/
def ofFound : Option α → Activity α
  | some entry => .active entry
  | none => .idle

@[simp] theorem state_ofSlot (s : Slot α) : (ofSlot s).state = s.state := by cases s <;> rfl

@[simp] theorem state_slot_map (f : α → β) (s : Slot α) : Slot.state (s.map f) = s.state := by
  cases s <;> rfl

@[simp] theorem state_map (f : α → β) (a : Activity α) : (a.map f).state = a.state := by
  cases a <;> rfl

@[simp] theorem active?_ofSlot (s : Slot α) : (ofSlot s).active? = s.entry? := by cases s <;> rfl

@[simp] theorem output_map (f : α → β) (a : Activity α) : (a.map f).output = a.output.map f := by
  cases a <;> rfl

/-- Of what a stage hands on, the next one sees whether it got through. -/
theorem state_output (a : Activity α) :
    (a.output.state = .instr ↔ a.state = .instr) ∧ (a.output.state = .empty ↔ a.state = .empty) ∧
      (a.output.state = .bubble ↔ a.state ∈ [.stall, .flush, .bubble]) := by
  cases a <;> simp [output, Slot.state, state]

end Activity

namespace Latches

variable {l : Latches} {registers : RegisterFile} {stall : Bool} {redirect : Option Word}

theorem decode_valid {f : Fetched} (held : l.ifId = .valid f) :
    l.decode registers stall redirect =
      if stall then .stalled (some (f.decode registers))
      else if redirect.isSome then .flushed (f.decode registers)
      else .active (f.decode registers) := by
  simp [decode, held]

theorem decode_empty (held : l.ifId = .empty) : l.decode registers stall redirect = .idle := by
  simp [decode, held]

theorem decode_bubble (held : l.ifId = .bubble) : l.decode registers stall redirect = .bubble := by
  simp [decode, held]

end Latches

theorem LoadUse.exists_user {idEx : Slot Decoded} {ifId : Slot Fetched}
    (loadUse : LoadUse idEx ifId) : ∃ f r, ifId = .valid f ∧ f.inst.Reads r := by
  obtain ⟨d, -, f, inside, -, -, reads⟩ := loadUse
  exact ⟨f, d.dest, Slot.eq_valid inside, reads⟩

/-- An instruction that can be made to wait does not jump in decode, since a jump reads nothing. -/
theorem Instruction.Reads.not_fixedJump {i : Instruction} {r : Nat} (reads : i.Reads r) :
    ¬ i.op.FixedJump := by
  rintro (j | jal)
  · simp [Reads, sources, Op.layout, j] at reads
  · simp [Reads, sources, Op.layout, jal] at reads

namespace Simulator

/-- The record that the next cycle adds to the history. -/
def observed (s : Simulator) : Snapshot :=
  (Cycle.start s.machine s.latches).snapshot s.latches (s.cycle + 1)

/-- The records of the next `n` cycles. -/
def records : Nat → Simulator → List Snapshot
  | 0, _ => []
  | n + 1, s => s.observed :: records n s.step

theorem history_step (s : Simulator) : s.step.history = s.history.push s.observed := rfl

theorem history_run (s : Simulator) (n : Nat) :
    (s.run n).history = (s.records n).foldl Recent.push s.history := by
  induction n generalizing s with
  | zero => rfl
  | succ n ih => rw [run, ih s.step, history_step, records, List.foldl_cons]

variable (s : Simulator)

theorem memWb_step : s.step.latches.memWb = s.observed.memory.output := by
  simp [observed, Cycle.snapshot, step, Cycle.latches]

theorem exMem_step : s.step.latches.exMem = s.observed.execute.output := by
  simp [observed, Cycle.snapshot, step, Cycle.latches]

theorem idEx_step : s.step.latches.idEx = s.observed.decode.output := by
  simp [observed, Cycle.snapshot, step, Cycle.latches]

theorem ifId_step (go : ¬ LoadUse s.latches.idEx s.latches.ifId) :
    s.step.latches.ifId = s.observed.fetch.output := by
  simp [observed, Cycle.snapshot, step, Cycle.latches, Cycle.start, go]

theorem observed_writeback : s.observed.writeback = .ofSlot s.latches.memWb := rfl

theorem observed_memory :
    s.observed.memory = .ofSlot (s.latches.exMem.map (·.access s.machine.data)) := rfl

theorem observed_execute : s.observed.execute = .ofSlot (s.latches.execute.map (·.entry)) := rfl

theorem observed_decode :
    s.observed.decode = (s.latches.decode (s.latches.memWb.retire s.machine.registers)
      (decide (LoadUse s.latches.idEx s.latches.ifId)) s.latches.execute.redirect?).map
        (·.entry) := rfl

theorem observed_fetch :
    s.observed.fetch = s.machine.intake (decide (LoadUse s.latches.idEx s.latches.ifId))
      (Cycle.start s.machine s.latches).redirect? := rfl

end Simulator

/-- Two records of consecutive cycles fit together. -/
structure Snapshot.Precedes (s t : Snapshot) : Prop where
  writeback : t.writeback = s.memory
  memory : t.memory.state = s.execute.state
  memory_active : ∀ e, s.execute = .active e → ∃ a, t.memory = .active a ∧
    a.located = e.located ∧ a.result = e.result ∧ a.dest = e.dest
  execute_instr : t.execute.state = .instr ↔ s.decode.state = .instr
  execute_active : ∀ d, s.decode = .active d → ∃ e, t.execute = .active e ∧ e.located = d.located
  execute_empty : t.execute.state = .empty ↔ s.decode.state = .empty
  execute_bubble : t.execute.state = .bubble ↔ s.decode.state ∈ [.stall, .flush, .bubble]
  decode_active : ∀ f, s.fetch = .active f → t.decode.state ∈ [.instr, .stall, .flush] ∧
    ∃ d ∈ t.decode.entry?, d.located = f.located
  decode_flushed : s.fetch.state = .flush → t.decode.state = .bubble
  decode_empty : s.fetch.state = .empty → t.decode.state = .empty
  stalled : ∀ waiting, s.fetch = .stalled waiting → ∃ d d', s.decode = .stalled (some d) ∧
    t.decode = .active d' ∧ d'.located = d.located ∧ t.fetch = .ofFound waiting

namespace Simulator

section

variable (s : Simulator)

theorem execute_state_step : s.step.observed.execute.state = s.observed.decode.output.state := by
  rw [observed_execute, Activity.state_ofSlot, Activity.state_slot_map, Latches.execute,
    Activity.state_slot_map, idEx_step]

theorem memory_state_step : s.step.observed.memory.state = s.observed.execute.state := by
  rw [observed_memory, Activity.state_ofSlot, Activity.state_slot_map, exMem_step,
    observed_execute, Activity.output_ofSlot, Activity.state_ofSlot]

theorem writeback_step : s.step.observed.writeback = s.observed.memory := by
  rw [observed_writeback, memWb_step, observed_memory, Activity.output_ofSlot]

theorem loadUse_iff_fetch_stalled :
    LoadUse s.latches.idEx s.latches.ifId ↔ s.observed.fetch.state = .stall := by
  rw [observed_fetch]
  by_cases stall : LoadUse s.latches.idEx s.latches.ifId
  · simp [stall, Machine.intake, Activity.state]
  · simp only [stall, decide_false, Machine.intake, false_iff]
    cases s.machine.fetch with
    | empty => simp [Activity.state]
    | bubble => simp [Activity.state]
    | valid f =>
      dsimp only
      split <;> simp [Activity.state]

end

variable {s : Simulator}

theorem execute_active_step {d : Decoded} (through : s.observed.decode = .active d) :
    ∃ e, s.step.observed.execute = .active e ∧ e.located = d.located := by
  have held : s.step.latches.idEx = .valid d := by
    rw [idEx_step, through]
    rfl
  refine ⟨(d.execute s.step.latches.exMem s.step.latches.memWb).entry, ?_, rfl⟩
  rw [observed_execute, Latches.execute, held]
  rfl

theorem memory_active_step {e : Executed} (through : s.observed.execute = .active e) :
    ∃ a, s.step.observed.memory = .active a ∧ a.located = e.located ∧ a.result = e.result ∧
      a.dest = e.dest := by
  have held : s.step.latches.exMem = .valid e := by
    rw [exMem_step, through]
    rfl
  refine ⟨e.access s.step.machine.data, ?_, rfl, rfl, rfl⟩
  rw [observed_memory, held]
  rfl

theorem ifId_step_of_state (going : s.observed.fetch.state ≠ .stall) :
    s.step.latches.ifId = s.observed.fetch.output :=
  s.ifId_step (mt s.loadUse_iff_fetch_stalled.mp going)

theorem decode_active_step {f : Fetched} (fetched : s.observed.fetch = .active f) :
    s.step.observed.decode.state ∈ [.instr, .stall, .flush] ∧
      ∃ d ∈ s.step.observed.decode.entry?, d.located = f.located := by
  have held : s.step.latches.ifId = .valid f := by
    rw [ifId_step_of_state (by simp [fetched, Activity.state]), fetched]
    rfl
  rw [observed_decode, Latches.decode_valid held]
  split
  · exact ⟨by simp [Activity.map, Activity.state], _, rfl, rfl⟩
  · split
    · exact ⟨by simp [Activity.map, Activity.state], _, rfl, rfl⟩
    · exact ⟨by simp [Activity.map, Activity.state], _, rfl, rfl⟩

theorem decode_flushed_step (flushed : s.observed.fetch.state = .flush) :
    s.step.observed.decode.state = .bubble := by
  have held : s.step.latches.ifId = .bubble := by
    rw [ifId_step_of_state (by simp [flushed])]
    cases fetch : s.observed.fetch <;> simp [fetch, Activity.state, Activity.output] at flushed ⊢
  rw [observed_decode, Latches.decode_bubble held]
  rfl

theorem decode_empty_step (empty : s.observed.fetch.state = .empty) :
    s.step.observed.decode.state = .empty := by
  have held : s.step.latches.ifId = .empty := by
    rw [ifId_step_of_state (by simp [empty])]
    cases fetch : s.observed.fetch <;> simp [fetch, Activity.state, Activity.output] at empty ⊢
  rw [observed_decode, Latches.decode_empty held]
  rfl

theorem observed_decode_of_straight (go : ¬ LoadUse s.latches.idEx s.latches.ifId)
    (straight : s.latches.execute.redirect? = none) :
    s.observed.decode = .ofSlot (s.latches.ifId.map fun f =>
      (f.decode (s.latches.memWb.retire s.machine.registers)).entry) := by
  rw [observed_decode, straight]
  simp only [go, decide_false, Latches.decode]
  cases s.latches.ifId <;> rfl

theorem observed_fetch_of_onward (go : ¬ LoadUse s.latches.idEx s.latches.ifId)
    (straight : s.latches.execute.redirect? = none)
    (onward : ∀ f ∈ s.latches.ifId.entry?,
      (f.decode (s.latches.memWb.retire s.machine.registers)).jump = none) :
    s.observed.fetch = .ofFound s.machine.fetch.entry? := by
  have noJump : (s.latches.decode (s.latches.memWb.retire s.machine.registers) false none).jump? =
      none := by
    rw [Latches.jump?_decode_active]
    exact Option.bind_eq_none_iff.mpr onward
  have noRedirect : (Cycle.start s.machine s.latches).redirect? = none := by
    rw [Latches.execute] at straight
    simp [Cycle.redirect?, Cycle.start, go, straight, noJump]
  rw [observed_fetch, noRedirect]
  simp only [go, decide_false, Machine.intake, Machine.fetch]
  cases s.machine.current? <;> rfl

/-- Behind a stall execute is idle, so decode and fetch get through with what they held. -/
theorem resumes_step {waiting : Option Fetched} (stalled : s.observed.fetch = .stalled waiting) :
    ∃ d d', s.observed.decode = .stalled (some d) ∧ s.step.observed.decode = .active d' ∧
      d'.located = d.located ∧ s.step.observed.fetch = .ofFound waiting := by
  have stall : LoadUse s.latches.idEx s.latches.ifId := by
    rw [loadUse_iff_fetch_stalled, stalled]
    rfl
  obtain ⟨f, r, held, reads⟩ := stall.exists_user
  obtain ⟨ifId, bubble, pc⟩ := Cycle.front_of_stall (m := s.machine) stall
  have held' : s.step.latches.ifId = .valid f := ifId.trans held
  have bubble : s.step.latches.idEx = .bubble := bubble
  have go : ¬ LoadUse s.step.latches.idEx s.step.latches.ifId := by
    rw [bubble]
    rintro ⟨d, inside, -⟩
    simp [Slot.entry?] at inside
  have straight : s.step.latches.execute.redirect? = none := by
    rw [Latches.execute, bubble]
    rfl
  refine ⟨(f.decode (s.latches.memWb.retire s.machine.registers)).entry,
    (f.decode (s.step.latches.memWb.retire s.step.machine.registers)).entry, ?_, ?_, rfl, ?_⟩
  · rw [observed_decode, Latches.decode_valid held]
    simp [stall, Activity.map]
  · rw [observed_decode_of_straight go straight, held']
    rfl
  · have waits : s.machine.fetch.entry? = waiting := by
      rw [observed_fetch] at stalled
      simpa [stall, Machine.intake] using stalled
    have same : s.step.machine.fetch = s.machine.fetch := Follows.fetch_of_pc rfl pc
    rw [observed_fetch_of_onward go straight, same, waits]
    intro g inside
    obtain rfl : f = g := by simpa [held', Slot.entry?] using inside
    rw [Option.eq_none_iff_forall_ne_some]
    intro target jump
    exact reads.not_fixedJump ((f.jump_eq_some_iff _).mp jump).1

theorem precedes_step (s : Simulator) : s.observed.Precedes s.step.observed := by
  have onward := s.observed.decode.state_output
  rw [← execute_state_step] at onward
  exact {
    writeback := s.writeback_step
    memory := s.memory_state_step
    memory_active := fun _ through => memory_active_step through
    execute_instr := onward.1
    execute_active := fun _ through => execute_active_step through
    execute_empty := onward.2.1
    execute_bubble := onward.2.2
    decode_active := fun _ fetched => decode_active_step fetched
    decode_flushed := decode_flushed_step
    decode_empty := decode_empty_step
    stalled := fun _ stalled => resumes_step stalled }

theorem isChain_records (s : Simulator) (n : Nat) : (s.records n).IsChain Snapshot.Precedes := by
  induction n generalizing s with
  | zero => exact .nil
  | succ n ih =>
    cases n with
    | zero => exact .singleton _
    | succ n => exact .cons_cons s.precedes_step (ih s.step)

theorem loadUse_iff_decode_stalled (s : Simulator) :
    LoadUse s.latches.idEx s.latches.ifId ↔ s.observed.decode.state = .stall := by
  constructor
  · intro stall
    obtain ⟨f, r, held, -⟩ := stall.exists_user
    rw [observed_decode, Latches.decode_valid held]
    simp [stall, Activity.map, Activity.state]
  · intro stalled
    by_cases stall : LoadUse s.latches.idEx s.latches.ifId
    · exact stall
    rw [observed_decode] at stalled
    simp only [stall, decide_false, Latches.decode] at stalled
    cases held : s.latches.ifId with
    | empty => simp [held, Activity.map, Activity.state] at stalled
    | bubble => simp [held, Activity.map, Activity.state] at stalled
    | valid f =>
      simp only [held] at stalled
      split at stalled
      · contradiction
      · split at stalled <;> simp [Activity.map, Activity.state] at stalled

/-- In this cycle and the next three, an instruction goes through decode, execute, memory access
and writeback. -/
structure Walks (s : Simulator) (x : Word × Instruction) : Prop where
  decode : ∃ d, s.observed.decode = .active d ∧ d.located = x
  execute : ∃ e, (s.run 1).observed.execute = .active e ∧ e.located = x
  memory : ∃ a, (s.run 2).observed.memory = .active a ∧ a.located = x
  writeback : ∃ a, (s.run 3).observed.writeback = .active a ∧ a.located = x

theorem walks_of_decode {d : Decoded} (through : s.observed.decode = .active d) :
    s.Walks d.located := by
  obtain ⟨e, executed, fromDecode⟩ := execute_active_step through
  obtain ⟨a, accessed, fromExecute, -⟩ := memory_active_step executed
  have same : a.located = d.located := fromExecute.trans fromDecode
  exact {
    decode := ⟨d, through, rfl⟩
    execute := ⟨e, executed, fromDecode⟩
    memory := ⟨a, accessed, same⟩
    writeback := ⟨a, (writeback_step s.step.step).trans accessed, same⟩ }

/-- A fetched instruction walks on from the next cycle, or from the one after a stall, unless it is
squashed in decode. -/
theorem walks_of_fetch {f : Fetched} (fetched : s.observed.fetch = .active f) :
    s.step.Walks f.located ∨
      (s.step.observed.decode.state = .stall ∧ s.step.step.Walks f.located) ∨
      s.step.observed.decode.state = .flush := by
  obtain ⟨states, d, inside, same⟩ := decode_active_step fetched
  cases decode : s.step.observed.decode with
  | idle => simp [decode, Activity.state] at states
  | bubble => simp [decode, Activity.state] at states
  | flushed held => exact .inr (.inr rfl)
  | active held =>
    obtain rfl : held = d := by simpa [decode, Activity.entry?] using inside
    rw [← same]
    exact .inl (walks_of_decode decode)
  | stalled entry =>
    have stall := (loadUse_iff_decode_stalled s.step).mpr (by rw [decode]; rfl)
    rw [loadUse_iff_fetch_stalled] at stall
    cases fetch : s.step.observed.fetch with
    | idle => simp [fetch, Activity.state] at stall
    | bubble => simp [fetch, Activity.state] at stall
    | flushed g => simp [fetch, Activity.state] at stall
    | active g => simp [fetch, Activity.state] at stall
    | stalled waiting =>
      obtain ⟨held, resumed, was, now, kept, -⟩ := resumes_step fetch
      obtain rfl : held = d := by
        rw [was] at inside
        simpa [Activity.entry?] using inside
      rw [← same, ← kept]
      exact .inr (.inl ⟨rfl, walks_of_decode now⟩)

/-- In the history of a run, each record fits the one before it, so that an instruction that was
fetched is lost to view only by being squashed in decode. -/
theorem records_cohere (s : Simulator) (n : Nat) :
    (s.run n).history = (s.records n).foldl Recent.push s.history ∧
      (s.records n).IsChain Snapshot.Precedes ∧
      ∀ f, s.observed.fetch = .active f →
        s.step.Walks f.located ∨
          (s.step.observed.decode.state = .stall ∧ s.step.step.Walks f.located) ∨
          s.step.observed.decode.state = .flush := by
  refine ⟨s.history_run n, s.isChain_records n, ?_⟩
  intro f fetched
  exact walks_of_fetch fetched

end Simulator

end MipsPipeline
