import MipsPipeline.Proofs.Conservation
import MipsPipeline.Proofs.Operands

/-
Coherence of the latches. Until something is written to the machine behind the back of the pipeline,
whatever is in flight is held by code memory at the address it came from, and carries the control
signals and the destination that decode has given it. An instruction right behind another one in the
latches is the next one of the program, and the other one has gone nowhere else: a transfer of
control leaves a gap behind it.
-/
namespace MipsPipeline

namespace Instruction

/-- With these registers, control goes elsewhere than to the next instruction. -/
def Departs (i : Instruction) (pc : Word) (registers : RegisterFile) : Prop :=
  ∃ data, (i.effect pc registers data).transfer ≠ none

/-- The control signals and the destination that decode gives the instruction; the destination is
the register that it writes, and 0 if it writes none. -/
structure Issues (i : Instruction) (control : Control) (dest : Nat) : Prop where
  control : control = Control.ofOp i.op
  decoded : ∀ pc registers, (i.decoded pc registers).dest = dest
  written : ∀ pc registers data, ((i.effect pc registers data).write.map (·.1)).getD 0 = dest

theorem issues_decoded (i : Instruction) :
    i.Issues (Control.ofOp i.op) ((Control.ofOp i.op).destination i) where
  control := rfl
  decoded _ _ := rfl
  written pc registers data := by
    rw [← effect_decoded (i.operands_read registers) pc registers data]
    simp only [Decoded.effect, decoded, Fetched.decode, Control.destination]
    by_cases regWrite : (Control.ofOp i.op).regWrite = true
    · simp [regWrite]
    · simp [regWrite]

end Instruction

theorem Decoded.Carries.issues {registers : RegisterFile} {m : Machine} {i : Instruction}
    {d : Decoded} (carries : d.Carries registers m i) : d.inst.Issues d.control d.dest := by
  rw [show d = i.decoded m.pc registers from carries]
  exact i.issues_decoded

theorem Executed.Carries.issues {m : Machine} {i : Instruction} {e : Executed}
    (carries : e.Carries m i) : e.inst.Issues e.control e.dest := by
  rw [carries.inst, carries.control, carries.dest]
  exact i.issues_decoded

theorem Accessed.Carries.issues {m : Machine} {i : Instruction} {a : Accessed}
    (carries : a.Carries m i) : a.inst.Issues a.control a.dest := by
  rw [carries.inst, carries.control, carries.dest]
  exact i.issues_decoded

namespace Machine

variable {m : Machine}

theorem departs_iff {i : Instruction} (here : m.current? = some i) :
    i.Departs m.pc m.registers ↔ m.Branches ∨ m.Jumps := by
  have : Nonempty DataMemory := ⟨m.data⟩
  rw [m.branches_iff here, m.jumps_iff here, Instruction.Departs]
  cases op : i.op <;> simp [Instruction.effect, op]

theorem map_entry?_fetch (m : Machine) : m.fetch.entry?.map (·.located) = m.located? := by
  rw [fetch, located?]
  cases m.current? <;> rfl

end Machine

namespace Paced

variable {p : Paced} {x y : Word × Instruction}

theorem located?_eq_some_iff :
    p.located? = some x ↔
      p.rest = 0 ∧ p.machine.pc = x.1 ∧ p.machine.current? = some x.2 := by
  rw [located?, Option.ite_none_right_eq_some, Machine.located?_eq_some_iff]

theorem fetch_of_located (here : p.located? = some x) :
    p.machine.code.fetch x.1 = some x.2 := by
  obtain ⟨-, pc, current⟩ := located?_eq_some_iff.mp here
  rw [← pc]
  exact current

/-- Two steps without a rest between them are of consecutive instructions. -/
theorem next_of_located (here : p.located? = some x) (behind : p.tick.located? = some y) :
    y.1 = x.1.next ∧ ¬ x.2.Departs x.1 p.machine.registers := by
  obtain ⟨now, pc, current⟩ := located?_eq_some_iff.mp here
  obtain ⟨soon, pc', -⟩ := located?_eq_some_iff.mp behind
  rw [tick_of_step now] at soon pc'
  obtain ⟨-, straight, onward⟩ := (Machine.delay_eq_zero_iff _).mp soon
  rw [← pc, ← pc', Machine.departs_iff current]
  exact ⟨Machine.pc_step_of_sequential straight onward, not_or.mpr ⟨straight, onward⟩⟩

end Paced

/-- What is in decode comes from the address in front of the program counter, and is next to what is
in execute, which does not jump. -/
structure Latches.FetchedBy (l : Latches) (m : Machine) : Prop where
  loaded : ∀ x ∈ l.decoding, m.code.fetch x.1 = some x.2
  next : ∀ x ∈ l.decoding, m.pc = x.1.next
  onward : ∀ x ∈ l.executing, ∀ y ∈ l.decoding, y.1 = x.1.next ∧ ¬ x.2.op.FixedJump

namespace Latches.FetchedBy

variable {m : Machine} {l : Latches}

theorem of_nothing (nothing : l.ifId.entry? = none) : l.FetchedBy m := by
  constructor <;> simp [decoding, nothing]

/-- A stall keeps what is in decode and puts a bubble in front of it. -/
theorem clock_of_stall (fetched : l.FetchedBy m) (stall : LoadUse l.idEx l.ifId) :
    ((Cycle.start m l).latches l).FetchedBy (m.clock l (Cycle.start m l)) := by
  obtain ⟨ifId, idEx, pc⟩ := Cycle.front_of_stall (m := m) stall
  have decoding : ((Cycle.start m l).latches l).decoding = l.decoding := by
    rw [Latches.decoding, ifId, Latches.decoding]
  have executing : ((Cycle.start m l).latches l).executing = none := by
    rw [Latches.executing, idEx]
    rfl
  refine ⟨?_, ?_, ?_⟩
  · rw [decoding]
    exact fetched.loaded
  · rw [decoding, Machine.clock, pc]
    exact fetched.next
  · rw [executing]
    intro x bubble
    contradiction

/-- The next fetch is behind what was in decode, and that goes to execute. -/
theorem clock_of_fetch (fetched : l.FetchedBy m) (go : ¬ LoadUse l.idEx l.ifId)
    (straight : l.execute.redirect? = none)
    (onward : ∀ f ∈ l.ifId.entry?, (f.decode (l.memWb.retire m.registers)).jump = none) :
    ((Cycle.start m l).latches l).FetchedBy (m.clock l (Cycle.start m l)) := by
  obtain ⟨ifId, pc⟩ := Cycle.front_of_fetch go straight onward
  have decoding : ((Cycle.start m l).latches l).decoding = m.located? := by
    rw [Latches.decoding, ifId, m.map_entry?_fetch]
  have executing : ((Cycle.start m l).latches l).executing = l.decoding := by
    rw [Latches.executing, Cycle.idEx_of_no_redirect go straight, Slot.entry?_map, Option.map_map]
    rfl
  refine ⟨?_, ?_, ?_⟩
  · rw [decoding]
    intro x located
    obtain ⟨same, here⟩ := Machine.located?_eq_some_iff.mp located
    rw [← same]
    exact here
  · rw [decoding, Machine.clock, pc]
    intro x located
    rw [(Machine.located?_eq_some_iff.mp located).1]
  · rw [decoding, executing]
    intro x held y located
    refine ⟨?_, ?_⟩
    · rw [← (Machine.located?_eq_some_iff.mp located).1]
      exact fetched.next x held
    · intro jump
      obtain ⟨f, inside, rfl⟩ := Option.map_eq_some_iff.mp held
      have target := (f.jump_eq_some_iff (l.memWb.retire m.registers)).mpr ⟨jump, rfl⟩
      rw [onward f inside] at target
      contradiction

theorem clock (fetched : l.FetchedBy m) :
    ((Cycle.start m l).latches l).FetchedBy (m.clock l (Cycle.start m l)) := by
  by_cases stall : LoadUse l.idEx l.ifId
  · exact fetched.clock_of_stall stall
  cases redirect : l.execute.redirect? with
  | some target => exact of_nothing (Cycle.front_of_redirect stall redirect).1
  | none =>
    by_cases jumps : ∃ f ∈ l.ifId.entry?, ∃ target,
        (f.decode (l.memWb.retire m.registers)).jump = some target
    · obtain ⟨f, held, target, jump⟩ := jumps
      exact of_nothing (Cycle.front_of_jump stall redirect (Slot.eq_valid held) jump).1
    · refine fetched.clock_of_fetch stall redirect ?_
      intro f held
      rw [Option.eq_none_iff_forall_ne_some]
      intro target jump
      exact jumps ⟨f, held, target, jump⟩

end Latches.FetchedBy

namespace Follows

variable {p : Paced} {m : Machine} {l : Latches} {x y : Word × Instruction}

theorem accessing (follows : Follows p m l) : l.accessing = p.tick.located? :=
  follows.exMem.map_entry? fun _ _ _ carried => Prod.ext carried.pc carried.inst

theorem executing (follows : Follows p m l) : l.executing = p.tick.tick.located? := by
  refine follows.idEx.map_entry? ?_
  rintro held i d rfl
  rfl

theorem fetch_of_inFlight (follows : Follows p m l) (fetched : l.FetchedBy m)
    (inFlight : x ∈ l.inFlight) : m.code.fetch x.1 = some x.2 := by
  simp only [Latches.inFlight, Latches.decoded, Latches.executed, List.mem_append,
    Option.mem_toList, follows.retiring, follows.accessing, follows.executing] at inFlight
  rcases inFlight with ((retiring | accessing) | executing) | decoding
  · rw [follows.code]
    exact Paced.fetch_of_located retiring
  · rw [follows.code, ← p.code_tick]
    exact Paced.fetch_of_located accessing
  · rw [follows.code, ← p.code_tick, ← p.tick.code_tick]
    exact Paced.fetch_of_located executing
  · exact fetched.loaded x decoding

theorem next_of_accessing (follows : Follows p m l) (older : x ∈ l.accessing)
    (younger : y ∈ l.executing) :
    y.1 = x.1.next ∧ ¬ x.2.Departs x.1 (l.memWb.retire m.registers) := by
  rw [follows.accessing] at older
  rw [follows.executing] at younger
  rw [follows.registers_retire]
  exact Paced.next_of_located older younger

theorem next_of_retiring (follows : Follows p m l) (older : x ∈ l.retiring)
    (younger : y ∈ l.accessing) : y.1 = x.1.next ∧ ¬ x.2.Departs x.1 m.registers := by
  rw [follows.retiring] at older
  rw [follows.accessing] at younger
  rw [follows.registers]
  exact Paced.next_of_located older younger

end Follows

namespace Simulator

/-- What the latches hold is of the loaded program, as decode has made it, and in its order. -/
structure Coherent (s : Simulator) : Prop where
  /-- Nothing is in flight but what code memory holds. -/
  loaded : ∀ x ∈ s.latches.inFlight, x.1.Aligned ∧ s.machine.code.fetch x.1 = some x.2
  idEx : ∀ d ∈ s.latches.idEx.entry?, d.inst.Issues d.control d.dest
  exMem : ∀ e ∈ s.latches.exMem.entry?, e.inst.Issues e.control e.dest
  memWb : ∀ a ∈ s.latches.memWb.entry?, a.inst.Issues a.control a.dest
  next : ∀ x ∈ s.latches.decoding, s.machine.pc = x.1.next
  /-- What is in execute may still branch, but a jump has left decode empty. -/
  decoding : ∀ x ∈ s.latches.executing, ∀ y ∈ s.latches.decoding,
    y.1 = x.1.next ∧ ¬ x.2.op.FixedJump
  /-- What has got through execute is judged by the registers that it is given. -/
  executing : ∀ x ∈ s.latches.accessing, ∀ y ∈ s.latches.executing,
    y.1 = x.1.next ∧ ¬ x.2.Departs x.1 (s.latches.memWb.retire s.machine.registers)
  accessing : ∀ x ∈ s.latches.retiring, ∀ y ∈ s.latches.accessing,
    y.1 = x.1.next ∧ ¬ x.2.Departs x.1 s.machine.registers

theorem clocked_fetchedBy : Clocked fun s => s.latches.FetchedBy s.machine where
  fresh s fresh := .of_nothing (by rw [fresh]; rfl)
  step _ fetched := fetched.clock

/-- Whatever is loaded, unloaded and run, the latches are coherent. -/
theorem coherent_of_reachable {s : Simulator} (reachable : s.Reachable fun c => ¬ c.Interferes) :
    s.Coherent := by
  have fetched := clocked_fetchedBy.of_reachable reachable fun _ undisturbed => undisturbed
  obtain ⟨p, follows⟩ := inStep_of_reachable reachable fun _ undisturbed => undisturbed
  -- The paced machine knows the three latches behind decode. What a taken branch is about to squash
  -- in decode is no step of it, so that the front has an invariant of its own.
  exact {
    loaded := by
      intro x inFlight
      have here := follows.fetch_of_inFlight fetched inFlight
      exact ⟨(CodeMemory.contains_of_fetch here).1, here⟩
    idEx := follows.idEx.forall_entry fun _ _ _ carried => carried.issues
    exMem := follows.exMem.forall_entry fun _ _ _ carried => carried.issues
    memWb := follows.memWb.forall_entry fun _ _ _ carried => carried.issues
    next := fetched.next
    decoding := fetched.onward
    executing := fun _ older _ younger => follows.next_of_accessing older younger
    accessing := fun _ older _ younger => follows.next_of_retiring older younger }

/-- Three instructions are in flight when another program takes their place; it jumps from address 8
to 16, and the jump has come to writeback. -/
def rerouted : Simulator :=
  (ofSettings { codeWords := 8, dataWords := 4 }).performAll
    [.loadWords [0x20080005, 0x21090003, 0x01095020] 0, .run 3,
      .loadWords [0x08000004, 0x20090001, 0x20080005, 0xAC080000] 8, .run 4]

theorem coherent_rerouted :
    (rerouted.Reachable fun c => ¬ c.Interferes) ∧ rerouted.Coherent ∧
      rerouted.latches.retiring.map (·.1) = some 8 ∧ rerouted.latches.accessing = none ∧
      rerouted.latches.executing.map (·.1) = some 16 ∧
      rerouted.latches.decoding.map (·.1) = some 20 ∧ rerouted.machine.pc = 24 := by
  have reachable : rerouted.Reachable fun c => ¬ c.Interferes := ⟨_, _, by decide, rfl⟩
  exact ⟨reachable, coherent_of_reachable reachable, by decide, by decide, by decide, by decide,
    by decide⟩

end Simulator

end MipsPipeline
