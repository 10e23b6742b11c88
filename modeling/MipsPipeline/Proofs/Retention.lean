import MipsPipeline.Proofs.Loading
import MipsPipeline.Proofs.Reachable
import MipsPipeline.Proofs.Timeline
import MipsPipeline.Simulator.View

/-
How much is kept does not change what is simulated. Two simulators whose settings differ only in
the length of the history, in what is logged and in the limit of a step request answer every call
alike and are in the same state after it. The view takes the reports of the newest cycle from the
history, so that a simulator that keeps no history shows none; apart from that the views differ in
nothing but the history.
-/
namespace MipsPipeline

namespace Recent

variable {α : Type}

/-- Whatever was kept before, the newest element is the one that was added last. -/
theorem newest?_push (r : Recent α) (x : α) :
    (r.push x).newest? = if r.limit = 0 then none else some x := by
  have bound := r.size_le
  have length := r.length_toList
  rw [newest?_eq_getLast?, toList_push]
  split
  · rename_i none
    rw [List.drop_eq_nil_of_le (by rw [List.length_append, List.length_singleton]; omega)]
    rfl
  · rename_i some
    rw [List.drop_append_of_le_length (by omega), List.getLast?_concat]

theorem newest?_of_limit_zero {r : Recent α} (none : r.limit = 0) : r.newest? = .none := by
  have bound := r.size_le
  have nothing : r.toList = [] := List.eq_nil_of_length_eq_zero (by rw [length_toList]; omega)
  rw [newest?_eq_getLast?, nothing]
  rfl

end Recent

/-- Settings that give the same machine. -/
structure Settings.SameMachine (u v : Settings) : Prop where
  startPc : u.startPc = v.startPc
  codeWords : u.codeWords = v.codeWords
  dataWords : u.dataWords = v.dataWords

theorem Settings.SameMachine.refl (u : Settings) : u.SameMachine u := ⟨rfl, rfl, rfl⟩

namespace Simulator

/-- What is answered to a call, and what can be seen after it. -/
structure Reply where
  answer : Answer
  view : StateView

def reply (s : Simulator) (c : Call) : Reply := ⟨s.answer c, (s.perform c).view⟩

/-- The replies to calls that are made one after the other. -/
def replies : Simulator → List Call → List Reply
  | _, [] => []
  | s, c :: calls => s.reply c :: replies (s.perform c) calls

def Reply.withoutHistory (r : Reply) : Reply := { r with view := { r.view with history := [] } }

def Reply.withoutReports (r : Reply) : Reply := { r with view := { r.view with hazards := [] } }

/-- A relation that every call keeps, and that gives replies alike, gives them for all calls. -/
theorem map_replies_eq {α : Type} {R : Simulator → Simulator → Prop} {f : Reply → α}
    (kept : ∀ s t c, R s t → R (s.perform c) (t.perform c))
    (alike : ∀ s t c, R s t → f (s.reply c) = f (t.reply c)) {s t : Simulator}
    (related : R s t) (calls : List Call) : (s.replies calls).map f = (t.replies calls).map f := by
  induction calls generalizing s t with
  | nil => rfl
  | cons c calls ih =>
    rw [replies, replies, List.map_cons, List.map_cons, alike s t c related,
      ih (kept s t c related)]

/-- Replies that agree show the same reports at the end. -/
theorem hazards_of_replies_eq {s t : Simulator} {calls : List Call} (something : calls ≠ [])
    (agree : (s.replies calls).map (·.withoutHistory) = (t.replies calls).map (·.withoutHistory)) :
    (s.performAll calls).view.hazards = (t.performAll calls).view.hazards := by
  induction calls generalizing s t with
  | nil => contradiction
  | cons c calls ih =>
    rw [replies, replies, List.map_cons, List.map_cons, List.cons.injEq] at agree
    cases calls with
    | nil => exact congrArg (·.view.hazards) agree.1
    | cons c' calls => exact ih (List.cons_ne_nil _ _) agree.2

/-- Simulators that differ in nothing but settings and history, and whose histories end alike if
they can. -/
structure Alike (s t : Simulator) : Prop where
  machine : s.machine = t.machine
  latches : s.latches = t.latches
  statistics : s.statistics = t.statistics
  cycle : s.cycle = t.cycle
  newest : (s.history.limit = 0 ↔ t.history.limit = 0) → s.history.newest? = t.history.newest?

/-- What one call makes of two simulators, if it changes them in the same way. -/
inductive Together (s t : Simulator) : Simulator → Simulator → Prop where
  | runs (n : Nat) : Together s t (s.run n) (t.run n)
  | edits (m : Machine) : Together s t { s with machine := m } { t with machine := m }
  | restarts (m : Machine) :
      Together s t { s with machine := m, latches := {} } { t with machine := m, latches := {} }
  | resets (m : Machine) : Together s t
      { s with
        machine := m
        latches := {}
        statistics := {}
        history := s.history.clear
        cycle := 0 }
      { t with
        machine := m
        latches := {}
        statistics := {}
        history := t.history.clear
        cycle := 0 }

theorem limit_run (s : Simulator) (n : Nat) : (s.run n).history.limit = s.history.limit := by
  induction n generalizing s with
  | zero => rfl
  | succ n ih => exact (ih s.step).trans (Recent.limit_push _ _)

theorem limit_perform (s : Simulator) (c : Call) :
    (s.perform c).history.limit = s.history.limit := by
  have change := s.change_perform c
  generalize s.perform c = t at change
  cases change with
  | runs n => exact s.limit_run n
  | edits m => rfl
  | restarts m => rfl
  | resets m => rfl

theorem runUntilDrained_eq_run_cycles (s : Simulator) (max : Nat) :
    s.runUntilDrained max = s.run (s.cyclesUntilDrained max) := by
  induction max generalizing s with
  | zero => rfl
  | succ max ih =>
    by_cases drained : s.IsDrained
    · simp only [runUntilDrained, cyclesUntilDrained, if_pos drained, run]
    · simp only [runUntilDrained, cyclesUntilDrained, if_neg drained, run]
      exact ih s.step

namespace Alike

variable {s t : Simulator}

theorem ofSettings {u v : Settings} (same : u.SameMachine v) :
    Alike (.ofSettings u) (.ofSettings v) where
  machine := by
    simp only [Simulator.ofSettings, Machine.ofSettings, same.startPc, same.codeWords,
      same.dataWords]
  latches := rfl
  statistics := rfl
  cycle := rfl
  newest _ := rfl

theorem isDrained_iff (alike : Alike s t) : s.IsDrained ↔ t.IsDrained := by
  rw [IsDrained, IsDrained, alike.machine, alike.latches]

theorem observed (alike : Alike s t) : s.observed = t.observed := by
  rw [Simulator.observed, Simulator.observed, alike.machine, alike.latches, alike.cycle]

theorem step (alike : Alike s t) : Alike s.step t.step where
  machine := by simp only [Simulator.step, alike.machine, alike.latches]
  latches := by simp only [Simulator.step, alike.machine, alike.latches]
  statistics := by simp only [Simulator.step, alike.machine, alike.latches, alike.statistics]
  cycle := congrArg Nat.succ alike.cycle
  newest kept := by
    rw [history_step, history_step, Recent.limit_push, Recent.limit_push] at kept
    rw [history_step, history_step, Recent.newest?_push, Recent.newest?_push, alike.observed]
    exact if_congr kept rfl rfl

theorem run (alike : Alike s t) (n : Nat) : Alike (s.run n) (t.run n) := by
  induction n generalizing s t with
  | zero => exact alike
  | succ n ih => exact ih alike.step

theorem cyclesUntilDrained (alike : Alike s t) (max : Nat) :
    s.cyclesUntilDrained max = t.cyclesUntilDrained max := by
  induction max generalizing s t with
  | zero => rfl
  | succ max ih =>
    simp only [Simulator.cyclesUntilDrained, ih alike.step]
    exact if_congr alike.isDrained_iff rfl rfl

theorem edit (alike : Alike s t) (m : Machine) :
    Alike { s with machine := m } { t with machine := m } :=
  { alike with machine := rfl }

theorem together_afterLoad (loaded : Except LoadError (Machine × LoadReport)) :
    Together s t (s.afterLoad (loaded.map s.restart)) (t.afterLoad (loaded.map t.restart)) := by
  cases loaded with
  | error cause => exact .runs 0
  | ok loaded => exact .restarts loaded.1

theorem together (alike : Alike s t) (c : Call) : Together s t (s.perform c) (t.perform c) := by
  cases c with
  | load format text start =>
    rw [Simulator.perform, Simulator.perform, load, load, ← alike.machine]
    exact together_afterLoad _
  | loadWords words start =>
    rw [Simulator.perform, Simulator.perform, loadWords, loadWords, ← alike.machine]
    exact together_afterLoad _
  | reset options =>
    by_cases aligned : options.pc.Aligned
    · simp only [Simulator.perform, reset, if_pos aligned, ← alike.machine]
      exact .resets _
    · simp only [Simulator.perform, reset, if_neg aligned]
      exact .runs 0
  | step => exact .runs 1
  | run cycles => exact .runs cycles
  | runUntilDrained cycles =>
    rw [Simulator.perform, Simulator.perform, runUntilDrained_eq_run_cycles,
      runUntilDrained_eq_run_cycles, alike.cyclesUntilDrained]
    exact .runs _
  | flush =>
    have same : t.flush = { t with machine := s.machine, latches := {} } := by
      rw [alike.machine]
      rfl
    rw [Simulator.perform, Simulator.perform, same]
    exact .restarts s.machine
  | writeRegister register value =>
    rw [Simulator.perform, Simulator.perform, ← alike.machine]
    exact .edits _
  | storeWord address value =>
    rw [Simulator.perform, Simulator.perform, ← alike.machine]
    exact .edits _
  | setPc pc =>
    rw [Simulator.perform, Simulator.perform, ← alike.machine]
    exact .edits _

theorem perform (alike : Alike s t) (c : Call) : Alike (s.perform c) (t.perform c) := by
  have together := alike.together c
  generalize s.perform c = s', t.perform c = t' at together
  cases together with
  | runs n => exact alike.run n
  | edits m => exact alike.edit m
  | restarts m => exact { alike.edit m with latches := rfl }
  | resets m => exact ⟨rfl, rfl, rfl, rfl, fun _ => rfl⟩

theorem map_report (loaded : Except LoadError (Machine × LoadReport)) :
    (loaded.map s.restart).map (·.2) = (loaded.map t.restart).map (·.2) := by
  cases loaded <;> rfl

theorem answer (alike : Alike s t) (c : Call) : s.answer c = t.answer c := by
  cases c with
  | load format text start =>
    rw [Simulator.answer, Simulator.answer, load, load, ← alike.machine, map_report]
  | loadWords words start =>
    rw [Simulator.answer, Simulator.answer, loadWords, loadWords, ← alike.machine, map_report]
  | reset options =>
    by_cases aligned : options.pc.Aligned
    · simp only [Simulator.answer, reset, if_pos aligned, Except.map]
    · simp only [Simulator.answer, reset, if_neg aligned, Except.map]
  | runUntilDrained cycles => exact congrArg Answer.ran (alike.cyclesUntilDrained cycles)
  | step => rfl
  | run cycles => rfl
  | flush => rfl
  | writeRegister register value => rfl
  | storeWord address value => rfl
  | setPc pc => rfl

theorem reply (alike : Alike s t) (c : Call) :
    (s.reply c).withoutHistory.withoutReports = (t.reply c).withoutHistory.withoutReports := by
  have after := alike.perform c
  simp only [Simulator.reply, Reply.withoutHistory, Reply.withoutReports, view, alike.answer c,
    after.machine, after.latches, after.statistics, after.cycle]

theorem reply_of_kept (alike : Alike s t) (kept : s.history.limit = 0 ↔ t.history.limit = 0)
    (c : Call) : (s.reply c).withoutHistory = (t.reply c).withoutHistory := by
  have after := alike.perform c
  have newest := after.newest (by rwa [limit_perform, limit_perform])
  simp only [Simulator.reply, Reply.withoutHistory, view, alike.answer c, after.machine,
    after.latches, after.statistics, after.cycle, newest]

theorem replies (alike : Alike s t) (calls : List Call) :
    (s.replies calls).map (·.withoutHistory.withoutReports) =
      (t.replies calls).map (·.withoutHistory.withoutReports) :=
  map_replies_eq (fun _ _ c alike => alike.perform c) (fun _ _ c alike => alike.reply c) alike calls

theorem replies_of_kept (alike : Alike s t) (kept : s.history.limit = 0 ↔ t.history.limit = 0)
    (calls : List Call) :
    (s.replies calls).map (·.withoutHistory) = (t.replies calls).map (·.withoutHistory) := by
  refine map_replies_eq (R := fun s t => s.Alike t ∧ (s.history.limit = 0 ↔ t.history.limit = 0))
    ?_ ?_ ⟨alike, kept⟩ calls
  · rintro s t c ⟨alike, kept⟩
    exact ⟨alike.perform c, by rwa [limit_perform, limit_perform]⟩
  · rintro s t c ⟨alike, kept⟩
    exact alike.reply_of_kept kept c

end Alike

section Reports

/-- The view shows the reports of the newest cycle, if any history is kept. -/
theorem hazards_view_step (s : Simulator) :
    s.step.view.hazards = if s.history.limit = 0 then [] else s.observed.hazards := by
  simp only [view, history_step, Recent.newest?_push]
  split <;> rfl

theorem hazards_of_limit_zero {s : Simulator} (none : s.history.limit = 0) (calls : List Call) :
    ∀ r ∈ s.replies calls, r.view.hazards = [] := by
  induction calls generalizing s with
  | nil => simp [replies]
  | cons c calls ih =>
    have none' : (s.perform c).history.limit = 0 := by rwa [limit_perform]
    intro r member
    rcases List.mem_cons.mp member with now | later
    · rw [now]
      simp only [reply, view, Recent.newest?_of_limit_zero none']
      rfl
    · exact ih none' r later

theorem latches_step_of_loaded {s : Simulator} {i : Instruction} (fresh : s.latches = {})
    (here : s.machine.current? = some i) :
    s.step.latches = { ifId := .valid ⟨s.machine.pc, i⟩ } := by
  rw [step, fresh]
  simp [Cycle.latches, Cycle.start, Slot.map, LoadUse, Slot.entry?, Latches.decode,
    Machine.intake, Machine.fetch, here, Slot.redirect?, Activity.jump?, Activity.output]

theorem hazards_of_jump {s : Simulator} {f : Fetched} (alone : s.latches = { ifId := .valid f })
    (jump : f.inst.op.FixedJump) :
    s.observed.hazards = [.jump f.inst (f.inst.jumpTarget f.pc)] := by
  have target := (f.jump_eq_some_iff (Slot.retire .empty s.machine.registers)).mpr ⟨jump, rfl⟩
  rw [observed, alone]
  simpa [Cycle.snapshot, Cycle.hazards, Cycle.start, Slot.map, LoadUse, Slot.entry?,
    Latches.decode, Slot.redirect?] using ⟨target, rfl⟩

theorem exists_installed {s : Simulator} {start : Word} {words : List Word}
    {instructions : List Instruction}
    (accepts : s.machine.code.Accepts start words instructions)
    (fits : start.toNat + 4 * words.length ≤ Word.limit) :
    ∃ report, s.Installed words start (s.perform (.loadWords words start)) report := by
  refine ⟨(s.machine.code.stored start (CodeMemory.row start 0 instructions)).2, ?_⟩
  rw [perform, loadWords, Machine.loadWords, CodeMemory.loadWords_eq,
    CodeMemory.loadRead_of_accepts accepts]
  exact installed_of_accepts accepts fits

theorem Installed.current? {s t : Simulator} {start w : Word} {words : List Word}
    {report : LoadReport} {i : Instruction} (installed : s.Installed (w :: words) start t report)
    (decodes : Instruction.decode w = .ok i) : t.machine.current? = some i := by
  have pc : t.machine.pc = start := by rw [installed.kept]
  obtain ⟨n, loaded⟩ := Nat.exists_eq_add_of_le' installed.positive
  rw [Machine.current?, pc, installed.holds.fetched]
  exact ⟨0, w, by rw [loaded]; rfl, decodes, rfl⟩

/-- `j 0` at address 0 is loaded and fetched; in the second cycle it jumps. -/
def spin : List Call := [.loadWords [0x08000000] 0, .run 2]

def spinning : Instruction := ⟨0x08000000, .j, rfl⟩

theorem decode_spinning : Instruction.decode 0x08000000 = .ok spinning := rfl

theorem accepts_spinning {u : Settings} (valid : u.Valid) :
    (ofSettings u).machine.code.Accepts 0 [0x08000000] [spinning] where
  starts := by
    obtain ⟨least, most⟩ := valid.code
    have size : (CodeMemory.unloaded u.codeWords).size = u.codeWords := CodeMemory.size_unloaded _
    refine ⟨by decide, ?_⟩
    show 0 < memoryBytes (CodeMemory.unloaded u.codeWords).size
    simp only [Settings.maxWords, Word.limit, UInt32.size, Word.bytes] at most
    simp only [size, memoryBytes, Word.limit, UInt32.size, Word.bytes]
    omega
  something := nofun
  decodes := .cons decode_spinning .nil

theorem hazards_spin {u : Settings} (valid : u.Valid) :
    ((ofSettings u).performAll spin).view.hazards =
      if u.historyLimit = 0 then [] else [.jump spinning 0] := by
  obtain ⟨report, installed⟩ := exists_installed (accepts_spinning valid) (by decide)
  generalize loaded : (ofSettings u).perform (.loadWords [0x08000000] 0) = s at installed
  have fresh : s.latches = {} := (Latches.allEmpty_iff _).mp installed.empty
  have here := installed.current? decode_spinning
  have limit : s.step.history.limit = u.historyLimit := by
    rw [← loaded]
    exact (limit_perform _ .step).trans (limit_perform _ _)
  have alone := latches_step_of_loaded fresh here
  have pc : s.machine.pc = 0 := by rw [installed.kept]
  calc ((ofSettings u).performAll spin).view.hazards = s.step.step.view.hazards := by
        rw [← loaded]
        rfl
    _ = if s.step.history.limit = 0 then [] else s.step.observed.hazards := hazards_view_step _
    _ = if u.historyLimit = 0 then [] else [.jump spinning 0] := by
        rw [limit, hazards_of_jump alone (.inl rfl), pc]
        rfl

end Reports

/-- Simulators with the same machine answer alike and are seen alike, but for the history and, if
only one of them keeps any, for the reports of the newest cycle, of which the other one then never
shows any. -/
theorem bookkeeping_unseen {u v : Settings} (valid : u.Valid) (valid' : v.Valid)
    (same : u.SameMachine v) :
    (∀ calls, ((ofSettings u).replies calls).map (·.withoutHistory.withoutReports) =
      ((ofSettings v).replies calls).map (·.withoutHistory.withoutReports)) ∧
    ((u.historyLimit = 0 ↔ v.historyLimit = 0) →
      ∀ calls, ((ofSettings u).replies calls).map (·.withoutHistory) =
        ((ofSettings v).replies calls).map (·.withoutHistory)) ∧
    (¬ (u.historyLimit = 0 ↔ v.historyLimit = 0) →
      ((ofSettings u).replies spin).map (·.withoutHistory) ≠
        ((ofSettings v).replies spin).map (·.withoutHistory)) ∧
    (u.historyLimit = 0 →
      ∀ calls, ∀ r ∈ (ofSettings u).replies calls, r.view.hazards = []) := by
  have alike := Alike.ofSettings same
  refine ⟨alike.replies, ?_, ?_, ?_⟩
  · intro kept
    exact alike.replies_of_kept kept
  · intro differ agree
    have hazards := hazards_of_replies_eq (show spin ≠ [] from List.cons_ne_nil _ _) agree
    rw [hazards_spin valid, hazards_spin valid'] at hazards
    by_cases none : u.historyLimit = 0 <;> by_cases none' : v.historyLimit = 0 <;>
      simp [none, none'] at hazards differ
  · intro none
    exact hazards_of_limit_zero none

/-- Keeps the newest cycle only, logs every stage and allows one cycle for each request. -/
def brief : Settings where
  codeWords := 8
  dataWords := 4
  historyLimit := 1
  maxStepCycles := 1
  traceStages := true

theorem bookkeeping_unseen_brief :
    brief.Valid ∧ Settings.Valid { codeWords := 8, dataWords := 4 } ∧
      brief.SameMachine { codeWords := 8, dataWords := 4 } ∧
      ∀ calls, ((ofSettings brief).replies calls).map (·.withoutHistory) =
        ((ofSettings { codeWords := 8, dataWords := 4 }).replies calls).map (·.withoutHistory) := by
  have valid : brief.Valid := (Settings.fault?_eq_none_iff _).mp rfl
  have valid' : Settings.Valid { codeWords := 8, dataWords := 4 } :=
    (Settings.fault?_eq_none_iff _).mp rfl
  have same : brief.SameMachine { codeWords := 8, dataWords := 4 } := ⟨rfl, rfl, rfl⟩
  exact ⟨valid, valid', same, (bookkeeping_unseen valid valid' same).2.1 (by decide)⟩

/-- Without a history the jump that the newest cycle has made is not reported. -/
theorem reports_lost_without_history :
    brief.Valid ∧ { brief with historyLimit := 0 }.Valid ∧
      brief.SameMachine { brief with historyLimit := 0 } ∧
      ((ofSettings brief).performAll spin).view.hazards = [.jump spinning 0] ∧
      ((ofSettings { brief with historyLimit := 0 }).performAll spin).view.hazards = [] := by
  have valid : brief.Valid := (Settings.fault?_eq_none_iff _).mp rfl
  have valid' : { brief with historyLimit := 0 }.Valid := (Settings.fault?_eq_none_iff _).mp rfl
  exact ⟨valid, valid', ⟨rfl, rfl, rfl⟩, hazards_spin valid, hazards_spin valid'⟩

end Simulator

end MipsPipeline
