import MipsPipeline.Proofs.Refinement
import MipsPipeline.Proofs.Tally
import MipsPipeline.Simulator.Call

/-
Conservation of instructions. Every fetched instruction is retired once, squashed once or still in
a latch. Behind decode nothing is squashed any more, so that what got through a stage is, in the
same order, what has been retired and what is in the latches behind that stage; with that the
counters of decode and execute balance those of writeback.
-/
namespace MipsPipeline

def Op.Conditional (op : Op) : Prop := op = .beq ∨ op = .bne

instance (op : Op) : Decidable op.Conditional := inferInstanceAs (Decidable (_ ∨ _))

theorem Control.branch_iff (op : Op) : (ofOp op).branch = true ↔ op.Conditional := by
  cases op <;> decide

theorem countP_located {α : Type} (o : Option α) (located : α → Word × Instruction)
    (p : Word × Instruction → Prop) [DecidablePred p] :
    (o.map located).toList.countP (p ·) = if ∃ a ∈ o, p (located a) then 1 else 0 := by
  cases o <;> simp

namespace Latches

variable (l : Latches)

def accessing : Option (Word × Instruction) := l.exMem.entry?.map (·.located)
def executing : Option (Word × Instruction) := l.idEx.entry?.map (·.located)
def decoding : Option (Word × Instruction) := l.ifId.entry?.map (·.located)

/-- What has got through execute, oldest first. -/
def executed : List (Word × Instruction) := l.retiring.toList ++ l.accessing.toList

def decoded : List (Word × Instruction) := l.executed ++ l.executing.toList

def inFlight : List (Word × Instruction) := l.decoded ++ l.decoding.toList

@[simp] theorem executed_empty : ({} : Latches).executed = [] := rfl

@[simp] theorem decoded_empty : ({} : Latches).decoded = [] := rfl

@[simp] theorem inFlight_empty : ({} : Latches).inFlight = [] := rfl

end Latches

/-- The entry of an instruction that was squashed. -/
def Activity.flushed? {α : Type} : Activity α → Option α
  | .flushed entry => some entry
  | _ => none

namespace Simulator

/-- What the next `n` cycles contribute, cycle by cycle. -/
def collect {α : Type} (part : Simulator → List α) : Nat → Simulator → List α
  | 0, _ => []
  | n + 1, s => part s ++ collect part n s.step

section

variable (s : Simulator)

/-- The instruction that the next cycle fetches, unless it stalls. -/
def fetching : Option (Word × Instruction) :=
  if LoadUse s.latches.idEx s.latches.ifId then none else s.machine.located?

/-- The instruction that gets through decode in the next cycle. -/
def issuing : Option (Word × Instruction) := s.observed.decode.active?.map (·.located)

/-- The instructions that the next cycle squashes. -/
def squashing : List (Word × Instruction) :=
  (s.observed.decode.flushed?.map (·.located)).toList ++
    (s.observed.fetch.flushed?.map (·.located)).toList

def fetched (n : Nat) : List (Word × Instruction) := s.collect (·.fetching.toList) n

def squashed (n : Nat) : List (Word × Instruction) := s.collect squashing n

theorem retiring_step : s.step.latches.retiring = s.latches.accessing := by
  have memWb : s.step.latches.memWb = s.latches.exMem.map (·.access s.machine.data) := rfl
  rw [Latches.retiring, memWb, Latches.accessing]
  cases s.latches.exMem <;> rfl

theorem accessing_step : s.step.latches.accessing = s.latches.executing := by
  have exMem : s.step.latches.exMem = s.latches.execute.map (·.entry) := rfl
  rw [Latches.accessing, exMem, Latches.execute, Latches.executing]
  cases s.latches.idEx <;> rfl

theorem executing_step : s.step.latches.executing = s.issuing := by
  rw [Latches.executing, idEx_step, issuing]
  cases s.observed.decode <;> rfl

theorem executed_step :
    s.latches.executed ++ s.latches.executing.toList =
      s.latches.retiring.toList ++ s.step.latches.executed := by
  rw [Latches.executed, Latches.executed, retiring_step, accessing_step, List.append_assoc]

theorem decoded_step :
    s.latches.decoded ++ s.issuing.toList =
      s.latches.retiring.toList ++ s.step.latches.decoded := by
  rw [Latches.decoded, Latches.decoded, executing_step, executed_step, List.append_assoc]

variable {s}

theorem decoding_of_stall (stall : LoadUse s.latches.idEx s.latches.ifId) :
    s.fetching = none ∧ s.issuing = none ∧ s.squashing = [] ∧
      s.step.latches.decoding = s.latches.decoding := by
  have decode := s.loadUse_iff_decode_stalled.mp stall
  have fetch := s.loadUse_iff_fetch_stalled.mp stall
  refine ⟨if_pos stall, ?_, ?_, ?_⟩
  · rw [issuing]
    cases held : s.observed.decode <;> simp [held, Activity.state, Activity.active?] at decode ⊢
  · rw [squashing]
    cases held : s.observed.decode <;> simp [held, Activity.state] at decode
    cases waits : s.observed.fetch <;> simp [waits, Activity.state] at fetch
    rfl
  · rw [Latches.decoding, show s.step.latches.ifId = s.latches.ifId from
      (Cycle.front_of_stall stall).1, Latches.decoding]

/-- Without a stall, what is in decode gets through or is squashed. -/
theorem decoding_of_go (go : ¬ LoadUse s.latches.idEx s.latches.ifId) :
    s.latches.decoding.toList =
      (s.observed.decode.flushed?.map (·.located)).toList ++ s.issuing.toList := by
  rw [issuing, observed_decode, Latches.decoding]
  simp only [go, decide_false]
  cases held : s.latches.ifId with
  | empty =>
    rw [Latches.decode_empty held]
    rfl
  | bubble =>
    rw [Latches.decode_bubble held]
    rfl
  | valid f =>
    rw [Latches.decode_valid held]
    cases s.latches.execute.redirect? <;> rfl

/-- Without a stall, what is fetched goes to decode or is squashed. -/
theorem fetching_of_go (go : ¬ LoadUse s.latches.idEx s.latches.ifId) :
    s.fetching.toList =
      (s.observed.fetch.flushed?.map (·.located)).toList ++ s.step.latches.decoding.toList := by
  rw [fetching, if_neg go, Latches.decoding, s.ifId_step go, observed_fetch]
  simp only [go, decide_false, Machine.intake, Machine.fetch, Machine.located?]
  cases s.machine.current? with
  | none => rfl
  | some i => cases (Cycle.start s.machine s.latches).redirect? <;> rfl

theorem front_step (s : Simulator) :
    (s.latches.decoding.toList ++ s.fetching.toList).Perm
      (s.squashing ++ (s.issuing.toList ++ s.step.latches.decoding.toList)) := by
  by_cases stall : LoadUse s.latches.idEx s.latches.ifId
  · obtain ⟨fetch, issue, squash, held⟩ := decoding_of_stall stall
    simp [fetch, issue, squash, held]
  · rw [decoding_of_go stall, fetching_of_go stall, squashing, List.perm_iff_count]
    intro x
    simp only [List.count_append]
    omega

end

section

variable {s : Simulator}

theorem retired_eq_collect (s : Simulator) (n : Nat) :
    s.retired n = s.collect (·.latches.retiring.toList) n := by
  induction n generalizing s with
  | zero => rfl
  | succ n ih => rw [retired, ih s.step, collect]

/-- What enters latches that nothing is squashed in stays there, in order, until it is retired. -/
theorem collect_run {held : Latches → List (Word × Instruction)}
    {part : Simulator → List (Word × Instruction)}
    (step : ∀ s : Simulator,
      held s.latches ++ part s = s.latches.retiring.toList ++ held s.step.latches)
    (s : Simulator) (n : Nat) :
    held s.latches ++ s.collect part n = s.retired n ++ held (s.run n).latches := by
  induction n generalizing s with
  | zero => simp [collect, retired, run]
  | succ n ih =>
    rw [collect, ← List.append_assoc, step, List.append_assoc, ih s.step, retired,
      List.append_assoc, run]

theorem inFlight_step (s : Simulator) :
    (s.latches.inFlight ++ s.fetching.toList).Perm
      (s.latches.retiring.toList ++ s.squashing ++ s.step.latches.inFlight) := by
  rw [List.perm_iff_count]
  intro x
  have front := s.front_step.count_eq x
  have back := congrArg (List.count x) s.decoded_step
  simp only [Latches.inFlight, List.count_append] at front back ⊢
  omega

theorem inFlight_run (s : Simulator) (n : Nat) :
    (s.latches.inFlight ++ s.fetched n).Perm
      (s.retired n ++ s.squashed n ++ (s.run n).latches.inFlight) := by
  rw [List.perm_iff_count]
  intro x
  induction n generalizing s with
  | zero => simp [fetched, squashed, collect, retired, run]
  | succ n ih =>
    have now := s.inFlight_step.count_eq x
    have later := ih s.step
    simp only [fetched, squashed, collect, retired, run, List.count_append] at now later ⊢
    omega

/-- A counter that counts some of the instructions passing a point in each cycle counts them in a
run. -/
theorem counter_run (counter : Statistics → Nat) {part : Simulator → List (Word × Instruction)}
    {counted : Word × Instruction → Bool}
    (step : ∀ s : Simulator, s.latches.Controlled →
      counter s.step.statistics = counter s.statistics + (part s).countP counted)
    (controlled : s.latches.Controlled) (n : Nat) :
    counter (s.run n).statistics = counter s.statistics + (s.collect part n).countP counted := by
  induction n generalizing s with
  | zero => rfl
  | succ n ih =>
    rw [run, ih (Cycle.controlled_latches s.machine s.latches), step s controlled, collect,
      List.countP_append, Nat.add_assoc]

end

section

variable (s : Simulator)

theorem flushed_step :
    s.step.statistics.flushed = s.statistics.flushed + s.squashing.countP fun _ => true := by
  rw [statistics_step]
  change s.statistics.flushed + (Statistics.recount [s.observed]).flushed = _
  congr 1
  rw [squashing, List.countP_append, Nat.add_comm]
  simp only [Statistics.recount, List.countP_singleton]
  cases s.observed.decode <;> cases s.observed.fetch <;> rfl

theorem control_of_issued {d : Decoded} (through : d ∈ s.observed.decode.active?) :
    d.control = Control.ofOp d.inst.op := by
  apply Cycle.controlled_latches s.machine s.latches
  change d ∈ s.step.latches.idEx.entry?
  rw [idEx_step]
  cases decode : s.observed.decode <;> simp_all [Activity.active?, Activity.output, Slot.entry?]

theorem jumps_step :
    s.step.statistics.jumps =
      s.statistics.jumps + s.issuing.toList.countP (·.2.op.FixedJump) := by
  rw [statistics_step]
  change s.statistics.jumps + (Statistics.recount [s.observed]).jumps = _
  congr 1
  rw [issuing, countP_located _ Decoded.located (·.2.op.FixedJump)]
  simp only [Statistics.recount, List.countP_singleton, decide_eq_true_eq]
  refine if_congr (exists_congr fun d => and_congr_right fun through => ?_) rfl rfl
  rw [s.control_of_issued through, Control.jump_iff]
  rfl

theorem branches_step :
    s.step.statistics.branches =
      s.statistics.branches + s.latches.retiring.toList.countP (·.2.op.Conditional) := by
  rw [statistics_step]
  change s.statistics.branches + (Statistics.recount [s.observed]).branches = _
  congr 1
  rw [Latches.retiring, countP_located _ (fun a : Accessed => (a.pc, a.inst)) (·.2.op.Conditional)]
  simp only [Statistics.recount, List.countP_singleton, decide_eq_true_eq]
  refine if_congr ?_ rfl rfl
  simp [Snapshot.Retires, observed_writeback, Op.Conditional]

theorem resolved_step (controlled : s.latches.Controlled) :
    s.step.statistics.branchesTaken + s.step.statistics.branchesNotTaken =
      s.statistics.branchesTaken + s.statistics.branchesNotTaken +
        s.latches.executing.toList.countP (·.2.op.Conditional) := by
  have counted : (Statistics.recount [s.observed]).branchesTaken +
      (Statistics.recount [s.observed]).branchesNotTaken =
        s.latches.executing.toList.countP (·.2.op.Conditional) := by
    rw [Latches.executing, countP_located _ Decoded.located (·.2.op.Conditional)]
    simp only [Statistics.recount, List.countP_singleton, decide_eq_true_eq, observed_execute,
      Activity.active?_ofSlot, Latches.execute]
    cases idEx : s.latches.idEx with
    | empty => simp [Slot.map, Slot.entry?]
    | bubble => simp [Slot.map, Slot.entry?]
    | valid d =>
      have control : d.control = Control.ofOp d.inst.op := controlled d (by rw [idEx]; rfl)
      have branch : d.control.branch = true ↔ d.located.2.op.Conditional := by
        rw [control]
        exact Control.branch_iff d.inst.op
      simp only [Slot.map, Slot.entry?, Option.mem_some_iff, exists_eq_left', ← branch,
        show (d.execute s.latches.exMem s.latches.memWb).entry.control = d.control from rfl]
      by_cases taken : (d.execute s.latches.exMem s.latches.memWb).entry.taken = true
      · simp [taken]
      · simp [taken]
  rw [statistics_step, ← counted]
  change s.statistics.branchesTaken + _ + (s.statistics.branchesNotTaken + _) = _
  omega

variable {s}

theorem flushed_run (controlled : s.latches.Controlled) (n : Nat) :
    (s.run n).statistics.flushed = s.statistics.flushed + (s.squashed n).length := by
  rw [counter_run (·.flushed) (fun s _ => s.flushed_step) controlled n, List.countP_true, squashed]

theorem jumps_run (controlled : s.latches.Controlled) (n : Nat) :
    (s.run n).statistics.jumps + s.latches.decoded.countP (·.2.op.FixedJump) =
      s.statistics.jumps + (s.retired n).countP (·.2.op.FixedJump) +
        (s.run n).latches.decoded.countP (·.2.op.FixedJump) := by
  have issued : (s.latches.decoded ++ s.collect (·.issuing.toList) n).countP (·.2.op.FixedJump) =
      (s.retired n ++ (s.run n).latches.decoded).countP (·.2.op.FixedJump) := by
    rw [collect_run decoded_step]
  have counted := counter_run (·.jumps) (fun s _ => s.jumps_step) controlled n
  simp only [List.countP_append] at issued
  omega

/-- The branches that execute has resolved and writeback has not counted are in the two latches
between. -/
theorem branches_run (controlled : s.latches.Controlled) (n : Nat) :
    (s.run n).statistics.branchesTaken + (s.run n).statistics.branchesNotTaken +
        s.statistics.branches + s.latches.executed.countP (·.2.op.Conditional) =
      s.statistics.branchesTaken + s.statistics.branchesNotTaken +
        (s.run n).statistics.branches +
          (s.run n).latches.executed.countP (·.2.op.Conditional) := by
  have executed : (s.latches.executed ++ s.collect (·.latches.executing.toList) n).countP
      (·.2.op.Conditional) =
        (s.retired n ++ (s.run n).latches.executed).countP (·.2.op.Conditional) := by
    rw [collect_run executed_step]
  have resolved := counter_run (fun t => t.branchesTaken + t.branchesNotTaken) resolved_step
    controlled n
  have retired := counter_run (·.branches) (fun s _ => s.branches_step) controlled n
  rw [← retired_eq_collect] at retired
  simp only [List.countP_append] at executed
  omega

theorem mixed_run (mixed : s.statistics.Mixed) (n : Nat) : (s.run n).statistics.Mixed :=
  holds_run (P := fun t => t.statistics.Mixed) (fun _ mixed => mixed.count _) mixed n

end

/-- What `n` cycles fetch balances what they retire, what they squash and what they leave in the
latches, and so do the counters of the stages. -/
structure Balanced (s : Simulator) (n : Nat) : Prop where
  fetched : (s.fetched n).length = (s.run n).statistics.retired + (s.run n).statistics.flushed +
    (s.run n).latches.inFlight.length
  once : (s.fetched n).Perm (s.retired n ++ s.squashed n ++ (s.run n).latches.inFlight)
  retired : (s.run n).statistics.retired = (s.retired n).length
  flushed : (s.run n).statistics.flushed = (s.squashed n).length
  branches : (s.run n).statistics.branchesTaken + (s.run n).statistics.branchesNotTaken =
    (s.run n).statistics.branches + (s.run n).latches.executed.countP (·.2.op.Conditional)
  jumps : (s.run n).statistics.jumps = (s.retired n).countP (·.2.op.FixedJump) +
    (s.run n).latches.decoded.countP (·.2.op.FixedJump)
  mixed : (s.run n).statistics.Mixed

theorem balanced_of_fresh {s : Simulator} (fresh : s.latches = {}) (cleared : s.statistics = {})
    (n : Nat) : s.Balanced n := by
  have controlled : s.latches.Controlled := by
    rw [fresh]
    exact Latches.controlled_empty
  have once := s.inFlight_run n
  have retired := s.statistics_run n
  have flushed := flushed_run controlled n
  have branches := branches_run controlled n
  have jumps := jumps_run controlled n
  have mixed : (s.run n).statistics.Mixed := by
    apply mixed_run
    rw [cleared]
    rfl
  simp only [fresh, cleared, Nat.zero_add] at once retired flushed branches jumps
  have length := once.length_eq
  simp only [List.length_append, Latches.inFlight_empty, List.nil_append] at length once
  refine ⟨?_, once, retired, flushed, ?_, ?_, mixed⟩
  · omega
  · simpa using branches
  · simpa using jumps

/-- In assembly: `lw $t0, 0($zero)`, `beq $t0, $zero, 1`, a word that is branched over, `j 20`,
another such word, `bne $zero, $zero, 1`, `jr $ra`. -/
def everyTransfer : Simulator :=
  (ofSettings { codeWords := 8, dataWords := 4 }).performAll
    [.loadWords [0x8C080000, 0x11000001, 0x20090001, 0x08000005, 0x20090002, 0x14000001,
      0x03E00008] 0]

theorem balanced_everyTransfer :
    everyTransfer.latches = {} ∧ everyTransfer.statistics = {} ∧ everyTransfer.Balanced 17 ∧
      (everyTransfer.squashed 17).length = 5 :=
  ⟨rfl, rfl, balanced_of_fresh rfl rfl 17, by decide⟩

end Simulator

end MipsPipeline
