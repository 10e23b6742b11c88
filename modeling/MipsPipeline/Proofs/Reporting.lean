import MipsPipeline.Proofs.Bookkeeping
import MipsPipeline.Proofs.Transfer

/-
Reports of bypassing. Execute asks whether the instruction reads a register, not whether it reads
the operand that the register stands for. So every operand that comes out of a latch is counted and
reported once, and one is counted and reported that the instruction does not have, just if it has
one of the two and the field of the other names the same register.
-/
namespace MipsPipeline

namespace Bypass

variable {exMem : Slot Executed} {memWb : Slot Accessed} {r : Nat}

/-- A latch has contents for the register that the register file has not. -/
def Supplies (exMem : Slot Executed) (memWb : Slot Accessed) (r : Nat) : Prop :=
  r ≠ 0 ∧ ((∃ e ∈ exMem.entry?, Computes e r) ∨ ∃ a ∈ memWb.entry?, Writes a r)

instance (exMem : Slot Executed) (memWb : Slot Accessed) (r : Nat) :
    Decidable (Supplies exMem memWb r) := inferInstanceAs (Decidable (_ ∧ (_ ∨ _)))

/-- Where the latest contents of a register are. -/
def source (exMem : Slot Executed) (memWb : Slot Accessed) (r : Nat) : ValueSource :=
  (resolve r 0 exMem memWb).1

theorem resolve_source (r : Nat) (value : Word) (exMem : Slot Executed) (memWb : Slot Accessed) :
    (resolve r value exMem memWb).1 = source exMem memWb r := by
  unfold source resolve
  split
  · rfl
  · cases exMem.entry?.filter (Computes · r) with
    | some e => rfl
    | none => cases memWb.entry?.filter (Writes · r) <;> rfl

theorem source_eq_registerFile_iff :
    source exMem memWb r = .registerFile ↔ ¬ Supplies exMem memWb r := by
  by_cases zero : r = 0
  · simp [source, resolve, Supplies, zero]
  · have computed : exMem.entry?.filter (Computes · r) = none ↔
        ¬ ∃ e ∈ exMem.entry?, Computes e r := by simp [Option.filter_eq_none_iff]
    have written : memWb.entry?.filter (Writes · r) = none ↔
        ¬ ∃ a ∈ memWb.entry?, Writes a r := by simp [Option.filter_eq_none_iff]
    simp only [Supplies, ne_eq, zero, not_false_eq_true, true_and, not_or, ← computed, ← written]
    simp only [source, resolve, zero, ↓reduceIte]
    cases exMem.entry?.filter (Computes · r) with
    | some e => simp
    | none => cases memWb.entry?.filter (Writes · r) <;> simp

theorem operand_source (i : Instruction) (r : Nat) (value : Word) (exMem : Slot Executed)
    (memWb : Slot Accessed) :
    (operand i r value exMem memWb).1 =
      if i.Reads r then source exMem memWb r else .registerFile := by
  unfold operand
  split
  · exact resolve_source r value exMem memWb
  · rfl

theorem operand_source_ne_iff {i : Instruction} {value : Word} :
    (operand i r value exMem memWb).1 ≠ .registerFile ↔ i.Reads r ∧ Supplies exMem memWb r := by
  rw [operand_source]
  split
  · rename_i reads
    rw [ne_eq, source_eq_registerFile_iff, not_not, and_iff_right reads]
  · rename_i unread
    simp [unread]

end Bypass

namespace Instruction

/-- The operands that the instruction has, with their registers. -/
def inputs (i : Instruction) : List (OperandSide × Nat) :=
  i.sources.1.toList.map (.first, ·) ++ i.sources.2.toList.map (.second, ·)

/-- Both operands that there can be, with the registers that the fields name. -/
def fields (i : Instruction) : List (OperandSide × Nat) := [(.first, i.rs), (.second, i.rt)]

/-- The operands that execute looks for in the latches. -/
def sought (i : Instruction) : List (OperandSide × Nat) := i.fields.filter (i.Reads ·.2)

/-- The instruction has one operand only, and the field of the other names its register too. -/
def RepeatsSource (i : Instruction) : Prop :=
  i.rs = i.rt ∧ i.sources.1.isSome ≠ i.sources.2.isSome

instance (i : Instruction) : Decidable i.RepeatsSource := inferInstanceAs (Decidable (_ ∧ _))

variable {i : Instruction}

theorem sources_cases (i : Instruction) :
    i.sources ∈ [(none, none), (some i.rs, none), (none, some i.rt), (some i.rs, some i.rt)] := by
  unfold sources
  cases i.op.layout <;> simp
  exact em' (i.op = .sw)

theorem inputs_of_repeatsSource (repeats : i.RepeatsSource) :
    ∃ side, i.inputs = [(side, i.rs)] := by
  obtain ⟨same, one⟩ := repeats
  have cases := i.sources_cases
  simp only [List.mem_cons, List.not_mem_nil, or_false] at cases
  rcases cases with sources | sources | sources | sources
  · simp [sources] at one
  · exact ⟨.first, by simp [inputs, sources]⟩
  · exact ⟨.second, by simp [inputs, sources, same]⟩
  · simp [sources] at one

theorem filter_sought (i : Instruction) (P : Nat → Prop) [DecidablePred P] :
    i.sought.filter (P ·.2) = i.fields.filter fun o => i.Reads o.2 ∧ P o.2 := by
  simp [sought, List.filter_filter, Bool.and_comm]

/-- What is sought is what is needed, and the other field if it repeats the only source. -/
theorem filter_sought_eq (i : Instruction) (P : Nat → Prop) [DecidablePred P]
    (nonzero : ∀ r, P r → r ≠ 0) :
    i.sought.filter (P ·.2) =
      if i.RepeatsSource ∧ P i.rs then i.fields else i.inputs.filter (P ·.2) := by
  rw [filter_sought]
  have cases := i.sources_cases
  simp only [List.mem_cons, List.not_mem_nil, or_false] at cases
  simp only [fields, inputs, RepeatsSource, Reads]
  -- Only with a single operand can the two lists differ, and then by the other field.
  rcases cases with sources | sources | sources | sources
  · simp [sources]
  · by_cases same : i.rs = i.rt <;> by_cases holds : P i.rs
    · simp [sources, ← same, holds, nonzero i.rs holds]
    · simp [sources, ← same, holds]
    · simp [sources, same, holds, nonzero i.rs holds]
    · simp [sources, same, holds]
  · by_cases same : i.rs = i.rt <;> by_cases holds : P i.rt
    · simp [sources, same, holds, nonzero i.rt holds]
    · simp [sources, same, holds]
    · simp [sources, Ne.symm same, same, holds, nonzero i.rt holds]
    · simp [sources, Ne.symm same, same, holds]
  · by_cases first : P i.rs <;> by_cases second : P i.rt
    · simp [sources, first, second, nonzero i.rs first, nonzero i.rt second]
    · simp [sources, first, second, nonzero i.rs first]
    · simp [sources, first, second, nonzero i.rt second]
    · simp [sources, first, second]

end Instruction

theorem Bypass.mem_inputs {i : Instruction} {exMem : Slot Executed} {memWb : Slot Accessed}
    (plain : ¬ (i.RepeatsSource ∧ Supplies exMem memWb i.rs)) {side : OperandSide} {r : Nat}
    {value : Word} (field : (side, r) ∈ i.fields)
    (elsewhere : (operand i r value exMem memWb).1 ≠ .registerFile) : (side, r) ∈ i.inputs := by
  rw [operand_source_ne_iff] at elsewhere
  have found : (side, r) ∈ i.sought.filter (Supplies exMem memWb ·.2) := by
    rw [i.filter_sought]
    simpa [field] using elsewhere
  rw [i.filter_sought_eq _ fun _ supplied => supplied.1, if_neg plain] at found
  exact List.mem_of_mem_filter found

/-- What execute bypasses is an operand of the instruction, as long as it does not repeat one. -/
theorem Instruction.isSome_sources_of_bypassed {i : Instruction} {exMem : Slot Executed}
    {memWb : Slot Accessed} (plain : ¬ (i.RepeatsSource ∧ Bypass.Supplies exMem memWb i.rs))
    (pc : Word) (registers : RegisterFile) :
    (((i.decoded pc registers).execute exMem memWb).entry.sourceA ≠ .registerFile →
      i.sources.1.isSome) ∧
    (((i.decoded pc registers).execute exMem memWb).entry.sourceB ≠ .registerFile →
      i.sources.2.isSome) := by
  constructor
  · intro elsewhere
    have needed : (.first, i.rs) ∈ i.inputs :=
      Bypass.mem_inputs plain (by simp [fields]) elsewhere
    have source : i.sources.1 = some i.rs := by simpa [inputs] using needed
    rw [source]
    rfl
  · intro elsewhere
    have needed : (.second, i.rt) ∈ i.inputs :=
      Bypass.mem_inputs plain (by simp [fields]) elsewhere
    have source : i.sources.2 = some i.rt := by simpa [inputs] using needed
    rw [source]
    rfl

/-- Reports about the operands of the instruction in execute that a latch supplies, taken from a
list of its operands. -/
def Latches.reports (l : Latches) (among : Instruction → List (OperandSide × Nat)) :
    List Hazard :=
  l.idEx.entry?.toList.flatMap fun d =>
    ((among d.inst).filter (Bypass.Supplies l.exMem l.memWb ·.2)).map fun (side, r) =>
      .bypass (Bypass.source l.exMem l.memWb r) side r d.inst

namespace Hazard

/-- Execute reports what it finds when it looks for the registers of both fields. -/
theorem bypasses_execute (i : Instruction) (pc : Word) (registers : RegisterFile)
    (exMem : Slot Executed) (memWb : Slot Accessed) :
    bypasses ((i.decoded pc registers).execute exMem memWb).entry i.rs i.rt =
      (i.sought.filter (Bypass.Supplies exMem memWb ·.2)).map
        fun (side, r) => .bypass (Bypass.source exMem memWb r) side r i := by
  have found (side : OperandSide) (r : Nat) (value : Word) :
      (if (Bypass.operand i r value exMem memWb).1 = .registerFile then none
        else some (bypass (Bypass.operand i r value exMem memWb).1 side r i)) =
        if i.Reads r ∧ Bypass.Supplies exMem memWb r then
          some (bypass (Bypass.source exMem memWb r) side r i)
        else none := by
    by_cases reads : i.Reads r
    · by_cases supplied : Bypass.Supplies exMem memWb r
      · have elsewhere := mt Bypass.source_eq_registerFile_iff.mp (not_not_intro supplied)
        simp [Bypass.operand_source, reads, supplied, elsewhere]
      · have here := Bypass.source_eq_registerFile_iff.mpr supplied
        simp [Bypass.operand_source, reads, supplied, here]
    · simp [Bypass.operand_source, reads]
  rw [i.filter_sought]
  simp only [bypasses, Decoded.execute, Instruction.decoded, Fetched.decode, List.filterMap_cons,
    List.filterMap_nil, found, Instruction.fields, List.filter_cons, List.filter_nil,
    decide_eq_true_eq]
  by_cases first : i.Reads i.rs ∧ Bypass.Supplies exMem memWb i.rs <;>
    by_cases second : i.Reads i.rt ∧ Bypass.Supplies exMem memWb i.rt <;>
      simp [first, second]

theorem kind_of_mem_loadUse? {idEx : Slot Decoded} {ifId : Slot Fetched} {h : Hazard}
    (member : h ∈ loadUse? idEx ifId) : h.kind = .stall := by
  obtain ⟨load, -, member⟩ := Option.bind_eq_some_iff.mp member
  obtain ⟨user, -, same⟩ := Option.bind_eq_some_iff.mp member
  cases same
  rfl

theorem kind_of_mem_bypasses {e : Executed} {rs rt : Nat} {h : Hazard}
    (member : h ∈ bypasses e rs rt) : h.kind = .data := by
  have kinds := List.mem_map_of_mem (f := kind) member
  rw [kind_bypasses] at kinds
  exact List.eq_of_mem_replicate kinds

end Hazard

namespace Cycle

variable (m : Machine) {l : Latches}

theorem filter_hazards (asDecoded : l.AsDecoded) :
    ((start m l).hazards l).filter (·.kind = .data) = l.reports (·.sought) := by
  simp only [hazards, List.filter_append]
  rw [← List.append_nil (l.reports _), ← List.nil_append (l.reports _)]
  refine congrArg₂ (· ++ ·) (congrArg₂ (· ++ ·) ?stalls ?executes) ?jumps
  case stalls =>
    refine List.filter_eq_nil_iff.mpr ?_
    intro h member
    split at member
    · simp [Hazard.kind_of_mem_loadUse? (Option.mem_toList.mp member)]
    · cases member
  case executes =>
    cases held : l.idEx with
    | empty => simp [Latches.reports, held, Slot.entry?]
    | bubble => simp [Latches.reports, held, Slot.entry?]
    | valid d =>
      obtain ⟨registers, same⟩ := asDecoded d (by rw [held]; rfl)
      have reported := Hazard.bypasses_execute d.inst d.pc registers l.exMem l.memWb
      have rs : d.rs = d.inst.rs := by rw [same]; rfl
      have rt : d.rt = d.inst.rt := by rw [same]; rfl
      have bypasses : (Hazard.bypasses (d.execute l.exMem l.memWb).entry d.inst.rs
          d.inst.rt).filter (·.kind = .data) = _ :=
        List.filter_eq_self.mpr fun h member => by simp [Hazard.kind_of_mem_bypasses member]
      have redirects (redirect : Option Word) :
          (redirect.map (Hazard.taken d.inst)).toList.filter (·.kind = .data) = [] := by
        cases redirect <;> rfl
      rw [← same] at reported
      simp only [start, held, Slot.map, Latches.reports, Slot.entry?, Option.toList_some,
        List.flatMap_singleton, List.filter_append, rs, rt, bypasses, ← reported]
      exact (congrArg _ (redirects _)).trans (List.append_nil _)
  case jumps =>
    refine List.filter_eq_nil_iff.mpr ?_
    intro h member
    split at member
    · obtain ⟨target, -, rfl⟩ := Option.map_eq_some_iff.mp (Option.mem_toList.mp member)
      simp [Hazard.kind]
    · cases member

end Cycle

theorem ValueSource.count_add_count (sources : List ValueSource) :
    sources.count .exMem + sources.count .memWb = sources.countP (· ≠ .registerFile) := by
  induction sources with
  | nil => rfl
  | cons source sources ih =>
    rw [List.count_cons, List.count_cons, List.countP_cons, ← ih]
    cases source <;> simp <;> omega

/-- Operands taken out of either latch. -/
def Statistics.bypassed (t : Statistics) : Nat := t.bypassedExMem + t.bypassedMemWb

namespace Simulator

theorem kept_asDecoded : Kept fun s => s.latches.AsDecoded where
  start _ := Latches.asDecoded_empty
  step s _ := Cycle.asDecoded_latches s.machine s.latches
  edit _ _ asDecoded := asDecoded
  restart _ _ _ := Latches.asDecoded_empty
  reset _ _ _ := Latches.asDecoded_empty

/-- The reports of bypassed operands that the next cycle makes. -/
def bypasses (s : Simulator) : List Hazard := s.observed.hazards.filter (·.kind = .data)

/-- The instruction in execute repeats its only source, and a latch supplies that. -/
def Repeats (s : Simulator) : Prop :=
  ∃ d ∈ s.latches.idEx.entry?, d.inst.RepeatsSource ∧
    Bypass.Supplies s.latches.exMem s.latches.memWb d.inst.rs

instance (s : Simulator) : Decidable s.Repeats :=
  inferInstanceAs (Decidable (∃ d ∈ s.latches.idEx.entry?, _))

theorem bypassed_step (s : Simulator) :
    s.step.statistics.bypassed = s.statistics.bypassed + s.bypasses.length := by
  have counted := ValueSource.count_add_count s.observed.sources
  have reported := s.reported_observed.bypasses
  rw [List.countP_eq_length_filter] at reported
  rw [bypasses, reported, statistics_step, ← counted]
  simp only [Statistics.bypassed, Statistics.add_eq, Statistics.add, Statistics.recount,
    List.flatMap_singleton]
  omega

variable {s : Simulator}

theorem bypasses_eq (asDecoded : s.latches.AsDecoded) :
    s.bypasses = s.latches.reports (·.sought) := Cycle.filter_hazards s.machine asDecoded

theorem bypasses_of_not_repeats (asDecoded : s.latches.AsDecoded) (plain : ¬ s.Repeats) :
    s.bypasses = s.latches.reports (·.inputs) := by
  rw [bypasses_eq asDecoded]
  unfold Latches.reports
  cases held : s.latches.idEx with
  | empty => rfl
  | bubble => rfl
  | valid d =>
    have single : ¬ (d.inst.RepeatsSource ∧
        Bypass.Supplies s.latches.exMem s.latches.memWb d.inst.rs) := by
      intro repeats
      exact plain ⟨d, by rw [held]; rfl, repeats⟩
    simp only [Slot.entry?, Option.toList_some, List.flatMap_singleton]
    rw [d.inst.filter_sought_eq _ fun _ supplied => supplied.1, if_neg single]

theorem bypasses_of_repeats (asDecoded : s.latches.AsDecoded) (repeats : s.Repeats) :
    (s.latches.reports (·.inputs)).Sublist s.bypasses ∧
      s.bypasses.length = (s.latches.reports (·.inputs)).length + 1 := by
  obtain ⟨d, inside, twice, supplied⟩ := repeats
  have held := Slot.eq_valid inside
  obtain ⟨side, inputs⟩ := d.inst.inputs_of_repeatsSource twice
  rw [bypasses_eq asDecoded]
  unfold Latches.reports
  simp only [held, Slot.entry?, Option.toList_some, List.flatMap_singleton]
  rw [d.inst.filter_sought_eq _ fun _ supplied => supplied.1, if_pos ⟨twice, supplied⟩, inputs]
  have single : [(side, d.inst.rs)].filter
      (Bypass.Supplies s.latches.exMem s.latches.memWb ·.2) = [(side, d.inst.rs)] := by
    simp [supplied]
  rw [single]
  refine ⟨List.Sublist.map _ ?_, rfl⟩
  rw [List.singleton_sublist, Instruction.fields, ← twice.1]
  cases side <;> simp

/-- The next cycle bypasses the operands that the instruction in execute has, counts them and
reports them. -/
structure Faithful (s : Simulator) : Prop where
  first : ∀ e ∈ s.latches.execute.entry?, e.entry.sourceA ≠ .registerFile →
    e.entry.inst.sources.1.isSome
  second : ∀ e ∈ s.latches.execute.entry?, e.entry.sourceB ≠ .registerFile →
    e.entry.inst.sources.2.isSome
  counted : s.step.statistics.bypassed =
    s.statistics.bypassed + (s.latches.reports (·.inputs)).length
  reported : s.bypasses = s.latches.reports (·.inputs)

theorem faithful_of_not_repeats (asDecoded : s.latches.AsDecoded) (plain : ¬ s.Repeats) :
    s.Faithful := by
  have reported := bypasses_of_not_repeats asDecoded plain
  have needed : ∀ e ∈ s.latches.execute.entry?,
      (e.entry.sourceA ≠ .registerFile → e.entry.inst.sources.1.isSome) ∧
        (e.entry.sourceB ≠ .registerFile → e.entry.inst.sources.2.isSome) := by
    intro e executed
    rw [Latches.execute, Slot.entry?_map] at executed
    obtain ⟨d, inside, rfl⟩ := Option.map_eq_some_iff.mp executed
    obtain ⟨registers, same⟩ := asDecoded d inside
    have single := fun repeats => plain ⟨d, inside, repeats⟩
    rw [same]
    exact Instruction.isSome_sources_of_bypassed single d.pc registers
  refine ⟨fun e executed => (needed e executed).1, fun e executed => (needed e executed).2, ?_,
    reported⟩
  rw [bypassed_step, reported]

/-- A cycle bypasses, counts and reports exactly the operands that the instruction in execute has,
unless that repeats its only source; then it bypasses, counts and reports one more. -/
theorem bypass_reports (reachable : s.Reachable fun _ => True) :
    (s.Faithful ↔ ¬ s.Repeats) ∧
    (s.latches.reports (·.inputs)).Sublist s.bypasses ∧
    s.step.statistics.bypassed = s.statistics.bypassed + s.bypasses.length ∧
    s.bypasses.length = (s.latches.reports (·.inputs)).length + if s.Repeats then 1 else 0 := by
  have asDecoded : s.latches.AsDecoded := kept_asDecoded.of_reachable reachable
  by_cases repeats : s.Repeats
  · obtain ⟨sublist, more⟩ := bypasses_of_repeats asDecoded repeats
    have unfaithful : ¬ s.Faithful := by
      intro faithful
      rw [faithful.reported] at more
      omega
    exact ⟨iff_of_false unfaithful (not_not_intro repeats), sublist, s.bypassed_step,
      by rw [more, if_pos repeats]⟩
  · have same := bypasses_of_not_repeats asDecoded repeats
    exact ⟨iff_of_true (faithful_of_not_repeats asDecoded repeats) repeats,
      by rw [same], s.bypassed_step, by rw [same, if_neg repeats]; rfl⟩

/-- `add $t1, $t0, $t0` in execute, with `addi $t0, $zero, 5` in front of it. -/
def doubling : Simulator :=
  (ofSettings { codeWords := 8, dataWords := 4 }).performAll
    [.loadWords [0x20080005, 0x01084820] 0, .run 3]

theorem bypass_reports_doubling :
    (doubling.Reachable fun _ => True) ∧ doubling.bypasses.length = 2 ∧ doubling.Faithful := by
  have reachable : doubling.Reachable fun _ => True := ⟨_, _, fun _ _ => trivial, rfl⟩
  exact ⟨reachable, by decide, (bypass_reports reachable).1.mpr (by decide)⟩

/-- `addi $t0, $t0, 3` in execute, with `addi $t0, $zero, 5` in front of it. -/
def incrementing : Simulator :=
  (ofSettings { codeWords := 8, dataWords := 4 }).performAll
    [.loadWords [0x20080005, 0x21080003] 0, .run 3]

/-- The destination of an addition to itself is reported as a bypassed operand. -/
theorem destination_reported :
    (incrementing.Reachable fun _ => True) ∧
      (∃ e ∈ incrementing.latches.execute.entry?,
        e.entry.sourceB = .exMem ∧ e.entry.inst.sources.2 = none) ∧
      incrementing.step.statistics.bypassed = incrementing.statistics.bypassed + 2 ∧
      (incrementing.latches.reports (·.inputs)).length = 1 ∧ ¬ incrementing.Faithful := by
  have more : incrementing.step.statistics.bypassed = incrementing.statistics.bypassed + 2 := by
    decide
  have one : (incrementing.latches.reports (·.inputs)).length = 1 := by decide
  refine ⟨⟨_, _, fun _ _ => trivial, rfl⟩, by decide, more, one, ?_⟩
  intro faithful
  have counted := faithful.counted
  rw [more, one] at counted
  omega

end Simulator

end MipsPipeline
