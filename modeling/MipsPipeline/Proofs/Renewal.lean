import MipsPipeline.Proofs.InPlace
import MipsPipeline.Proofs.Retention

/-
A full reset. Calls change neither the settings nor the sizes of the memories nor the limit of the
history, and a reset puts everything else back, so that the simulator is a new one.
-/
namespace MipsPipeline

theorem CodeMemory.size_of_loadRead {m n : CodeMemory} {read : Except LoadError (List Word)}
    {start : Word} {report : LoadReport} (loaded : m.loadRead read start = .ok (n, report)) :
    n.size = m.size := by
  rcases m.refuses_or_accepts start read with ⟨e, refuses⟩ | ⟨words, instructions, rfl, accepts⟩
  · rw [loadRead_of_refuses refuses] at loaded
    contradiction
  · rw [loadRead_of_accepts accepts] at loaded
    obtain ⟨rfl, -⟩ := Prod.mk.inj (Except.ok.inj loaded)
    rw [size_storeAll, size_clear]

theorem Slot.size_stored (exMem : Slot Executed) (data : DataMemory) :
    (exMem.stored data).size = data.size := by
  cases exMem with
  | empty => rfl
  | bubble => rfl
  | valid e =>
    rw [stored, Executed.stored]
    split
    · exact data.size_store _ _
    · rfl

namespace Simulator

/-- The parts of a simulator for these settings that stay as they were built. -/
structure BuiltFor (u : Settings) (s : Simulator) : Prop where
  settings : s.settings = u
  code : s.machine.code.size = u.codeWords
  data : s.machine.data.size = u.dataWords
  limit : s.history.limit = u.historyLimit

namespace BuiltFor

variable {u : Settings} {s : Simulator}

theorem ofSettings (u : Settings) : BuiltFor u (.ofSettings u) where
  settings := rfl
  code := CodeMemory.size_unloaded _
  data := DataMemory.size_zeroed _
  limit := rfl

theorem step (built : BuiltFor u s) : BuiltFor u s.step where
  settings := built.settings
  code := built.code
  data := (Slot.size_stored _ _).trans built.data
  limit := (Recent.limit_push _ _).trans built.limit

theorem run (built : BuiltFor u s) (n : Nat) : BuiltFor u (s.run n) :=
  holds_run (fun _ built => built.step) built n

theorem afterLoad (built : BuiltFor u s) (read : Except LoadError (List Word)) (start : Word) :
    BuiltFor u (s.afterLoad
      (((s.machine.code.loadRead read start).map s.machine.install).map s.restart)) := by
  cases loaded : s.machine.code.loadRead read start with
  | error cause => exact built
  | ok program =>
    have size := CodeMemory.size_of_loadRead loaded
    exact { built with code := size.trans built.code }

theorem reset (built : BuiltFor u s) (options : ResetOptions) :
    BuiltFor u (s.perform (.reset options)) := by
  by_cases aligned : options.pc.Aligned
  · simp only [perform, Simulator.reset, if_pos aligned]
    refine { built with code := (CodeMemory.size_clear _).trans built.code, data := ?_ }
    cases options.clearData with
    | false => exact built.data
    | true => exact (DataMemory.size_clear _).trans built.data
  · simpa only [perform, Simulator.reset, if_neg aligned] using built

theorem perform (built : BuiltFor u s) (c : Call) : BuiltFor u (s.perform c) := by
  cases c with
  | load format text start => exact built.afterLoad (format.words text start) start
  | loadWords words start =>
    rw [Simulator.perform, loadWords, Machine.loadWords, CodeMemory.loadWords_eq]
    exact built.afterLoad (.ok words) start
  | reset options => exact built.reset options
  | step => exact built.step
  | run cycles => exact built.run cycles
  | runUntilDrained cycles =>
    rw [Simulator.perform, runUntilDrained_eq_run_cycles]
    exact built.run _
  | flush => exact { built with }
  | writeRegister register value => exact { built with }
  | storeWord address value =>
    exact { built with data := (DataMemory.size_store _ _ _).trans built.data }
  | setPc pc => exact { built with }

theorem performAll (built : BuiltFor u s) (calls : List Call) :
    BuiltFor u (s.performAll calls) := by
  induction calls generalizing s with
  | nil => exact built
  | cons c calls ih => exact ih (built.perform c)

end BuiltFor

/-- The new simulator for these settings, but with the registers or the data of another one. -/
def renewed (u : Settings) (s : Simulator) (clearRegisters clearData : Bool) : Simulator :=
  { ofSettings u with
    machine :=
      { Machine.ofSettings u with
        registers := if clearRegisters then .cleared else s.machine.registers
        data := if clearData then .zeroed u.dataWords else s.machine.data } }

theorem renewed_clear (u : Settings) (s : Simulator) : s.renewed u true true = ofSettings u := rfl

theorem reset_of_builtFor {u : Settings} {s : Simulator} (built : BuiltFor u s)
    (aligned : u.startPc.Aligned) (clearRegisters clearData : Bool) :
    s.reset ⟨clearRegisters, clearData, u.startPc⟩ =
      .ok (s.renewed u clearRegisters clearData) := by
  have code : s.machine.code.clear = .unloaded u.codeWords := by rw [CodeMemory.clear, built.code]
  have data : s.machine.data.clear = .zeroed u.dataWords := by rw [DataMemory.clear, built.data]
  have history : s.history.clear = .empty u.historyLimit := by rw [Recent.clear, built.limit]
  simp only [reset, if_pos aligned, Machine.reset, code, data, history, built.settings]
  rfl

/-- After any calls a full reset makes the simulator new, a reset that clears less keeps just what
it does not clear, and one to an address that is not aligned keeps everything. -/
theorem reset_renews {u : Settings} {calls : List Call} {s : Simulator}
    (aligned : u.startPc.Aligned) (reached : (ofSettings u).performAll calls = s) :
    BuiltFor u s ∧
    (∀ clearRegisters clearData,
      (resetInPlace ⟨clearRegisters, clearData, u.startPc⟩).run s =
        .ok () (s.renewed u clearRegisters clearData)) ∧
    (resetInPlace ⟨true, true, u.startPc⟩).run s = .ok () (ofSettings u) ∧
    (∀ later, (s.perform (.reset ⟨true, true, u.startPc⟩)).replies later =
      (ofSettings u).replies later) ∧
    ∀ options, ¬ options.pc.Aligned →
      (resetInPlace options).run s = .error (.unalignedStart options.pc) s := by
  have built : BuiltFor u s := reached ▸ (BuiltFor.ofSettings u).performAll calls
  have renews (clearRegisters clearData : Bool) :
      (resetInPlace ⟨clearRegisters, clearData, u.startPc⟩).run s =
        .ok () (s.renewed u clearRegisters clearData) := by
    rw [run_resetInPlace, reset_of_builtFor built aligned]
    rfl
  refine ⟨built, renews, ?_, ?_, ?_⟩
  · rw [renews, renewed_clear]
  · intro later
    rw [perform, reset_of_builtFor built aligned, renewed_clear]
  · intro options crooked
    rw [run_resetInPlace, reset, if_neg crooked]
    rfl

/-- Keeps three cycles, and starts behind the first word. -/
def startingLate : Settings where
  startPc := 4
  codeWords := 8
  dataWords := 4
  historyLimit := 3

/-- Fills the latches, the counters, the history and both memories. -/
def busyCalls : List Call :=
  [.loadWords [0x8C080000, 0x11000001, 0x20090001, 0xAC090004, 0x08000000] 4, .storeWord 0 7,
    .run 9, .flush, .setPc 4, .writeRegister 9 5, .run 4]

theorem reset_renews_busy :
    startingLate.startPc.Aligned ∧
      ((ofSettings startingLate).performAll busyCalls).cycle = 13 ∧
      ((ofSettings startingLate).performAll busyCalls).history.size = 3 ∧
      (resetInPlace ⟨true, true, 4⟩).run ((ofSettings startingLate).performAll busyCalls) =
        .ok () (ofSettings startingLate) ∧
      (resetInPlace ⟨true, true, 6⟩).run ((ofSettings startingLate).performAll busyCalls) =
        .error (.unalignedStart 6) ((ofSettings startingLate).performAll busyCalls) := by
  have aligned : startingLate.startPc.Aligned := by decide
  obtain ⟨-, -, full, -, refused⟩ := reset_renews aligned rfl
  exact ⟨aligned, by decide, by decide, full, refused ⟨true, true, 6⟩ (by decide)⟩

end Simulator

end MipsPipeline
