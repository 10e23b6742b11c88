import MipsPipeline.Simulator.Basic

/-
Loading and resetting in place. Here a simulator is changed piece by piece, and what has been
changed by the time that something is refused stays changed. It ends up as if nothing had been
changed before everything had succeeded: whatever can be refused is refused before the first
change.
-/
namespace MipsPipeline

/-- What is left behind where nothing is changed before everything has succeeded. -/
def committed {ε σ α : Type} (s : σ) : Except ε (σ × α) → EStateM.Result ε σ α
  | .ok (t, answer) => .ok answer t
  | .error e => .error e s

namespace Machine

/-- Stores an instruction, or skips it where there is no room, and notes down which. -/
def storeInPlace (report : LoadReport) (placed : Word × Instruction) :
    EStateM LoadError Machine LoadReport := do
  let m ← get
  if m.code.Contains placed.1 then
    set { m with code := m.code.store placed.1 placed.2 }
    return { report with loaded := report.loaded + 1 }
  else return { report with skipped := report.skipped ++ [placed.1] }

def loadWordsInPlace (words : List Word) (start : Word) :
    EStateM LoadError Machine LoadReport := do
  MonadExcept.ofExcept ((← get).code.checkStart start)
  if words = [] then throw .empty
  let program ← MonadExcept.ofExcept (CodeMemory.decodeAt start words)
  modify fun m => { m with code := m.code.clear }
  let report ← program.foldlM storeInPlace ⟨0, start, []⟩
  modify fun m => { m with pc := start }
  return report

def loadTextInPlace (format : SourceFormat) (text : List Char) (start : Word) :
    EStateM LoadError Machine LoadReport := do
  MonadExcept.ofExcept ((← get).code.checkStart start)
  let words ← MonadExcept.ofExcept (format.words text start)
  loadWordsInPlace words start

end Machine

namespace Simulator

/-- Work on the machine of a simulator; whatever becomes of it, the machine stays as it is left. -/
def onMachine {α : Type} (work : EStateM LoadError Machine α) : EStateM LoadError Simulator α :=
  fun s => match work.run s.machine with
    | .ok answer m => .ok answer { s with machine := m }
    | .error e m => .error e { s with machine := m }

def loadWordsInPlace (words : List Word) (start : Word) :
    EStateM LoadError Simulator LoadReport := do
  let report ← onMachine (Machine.loadWordsInPlace words start)
  modify flush
  return report

def loadInPlace (format : SourceFormat) (text : List Char) (start : Word) :
    EStateM LoadError Simulator LoadReport := do
  let report ← onMachine (Machine.loadTextInPlace format text start)
  modify flush
  return report

def resetInPlace (options : ResetOptions) : EStateM LoadError Simulator Unit := do
  if ¬ options.pc.Aligned then throw (.unalignedStart options.pc)
  modify fun s =>
    { s with machine := s.machine.reset options.clearRegisters options.clearData options.pc }
  modify flush
  modify fun s => { s with statistics := {}, history := s.history.clear, cycle := 0 }

end Simulator

theorem CodeMemory.contains_store (m : CodeMemory) (address other : Word) (i : Instruction) :
    (m.store address i).Contains other ↔ m.Contains other := by
  rw [Contains, Contains, size_store]

namespace Machine

theorem run_storeInPlace (report : LoadReport) (placed : Word × Instruction) (m : Machine) :
    (storeInPlace report placed).run m =
      if m.code.Contains placed.1 then
        .ok { report with loaded := report.loaded + 1 }
          { m with code := m.code.store placed.1 placed.2 }
      else .ok { report with skipped := report.skipped ++ [placed.1] } m := by
  simp only [storeInPlace, EStateM.run_bind, EStateM.run_get]
  split <;> rfl

theorem run_foldlM_storeInPlace (program : List (Word × Instruction)) (report : LoadReport)
    (m : Machine) :
    (program.foldlM storeInPlace report).run m =
      .ok { report with
          loaded := report.loaded + (program.partition (m.code.Contains ·.1)).1.length
          skipped := report.skipped ++ (program.partition (m.code.Contains ·.1)).2.map (·.1) }
        { m with code := m.code.storeAll (program.partition (m.code.Contains ·.1)).1 } := by
  induction program generalizing report m with
  | nil => simp [CodeMemory.storeAll]
  | cons placed rest ih =>
    -- Storing does not change what there is room for, so that the rest divides as before.
    rw [List.foldlM_cons, EStateM.run_bind, run_storeInPlace]
    by_cases inside : m.code.Contains placed.1
    · simp [inside, ih, CodeMemory.contains_store, CodeMemory.storeAll, Nat.add_comm 1,
        Nat.add_assoc]
    · simp [inside, ih]

theorem run_loadWordsInPlace (words : List Word) (start : Word) (m : Machine) :
    (loadWordsInPlace words start).run m = committed m (m.loadWords words start) := by
  simp only [loadWordsInPlace, EStateM.run_bind, EStateM.run_get, loadWords, CodeMemory.loadWords]
  cases m.code.checkStart start with
  | error e => rfl
  | ok _ =>
    by_cases nothing : words = []
    · subst nothing
      rfl
    · rw [if_neg nothing, if_neg nothing]
      cases CodeMemory.decodeAt start words with
      | error e => rfl
      | ok program =>
        have stored := run_foldlM_storeInPlace program ⟨0, start, []⟩
          { m with code := m.code.clear }
        have room : ∀ address, m.code.clear.Contains address ↔ m.code.Contains address := by
          intro address
          rw [CodeMemory.Contains, CodeMemory.Contains, CodeMemory.size_clear]
        simp only [room, Nat.zero_add, List.nil_append] at stored
        simp only [MonadExcept.ofExcept, pure_bind, EStateM.run_bind, EStateM.run_pure,
          EStateM.run_modify, stored]
        rfl

theorem run_loadTextInPlace (format : SourceFormat) (text : List Char) (start : Word)
    (m : Machine) :
    (loadTextInPlace format text start).run m = committed m (m.loadText format text start) := by
  simp only [loadTextInPlace, EStateM.run_bind, EStateM.run_get, loadText, CodeMemory.loadText]
  cases m.code.checkStart start with
  | error e => rfl
  | ok _ =>
    cases format.words text start with
    | error e => rfl
    | ok words => exact run_loadWordsInPlace words start m

end Machine

namespace Simulator

theorem run_onMachine {α : Type} (work : EStateM LoadError Machine α) (s : Simulator) :
    (onMachine work).run s = match work.run s.machine with
      | .ok answer m => .ok answer { s with machine := m }
      | .error e m => .error e { s with machine := m } := rfl

theorem run_loadWordsInPlace (words : List Word) (start : Word) (s : Simulator) :
    (loadWordsInPlace words start).run s = committed s (s.loadWords words start) := by
  simp only [loadWordsInPlace, EStateM.run_bind, run_onMachine, Machine.run_loadWordsInPlace,
    loadWords]
  cases s.machine.loadWords words start <;> rfl

theorem run_loadInPlace (format : SourceFormat) (text : List Char) (start : Word)
    (s : Simulator) :
    (loadInPlace format text start).run s = committed s (s.load format text start) := by
  simp only [loadInPlace, EStateM.run_bind, run_onMachine, Machine.run_loadTextInPlace, load]
  cases s.machine.loadText format text start <;> rfl

theorem run_resetInPlace (options : ResetOptions) (s : Simulator) :
    (resetInPlace options).run s = committed s ((s.reset options).map fun t => (t, ())) := by
  by_cases aligned : options.pc.Aligned
  · rw [resetInPlace, reset, if_pos aligned, if_neg (not_not_intro aligned)]
    rfl
  · rw [resetInPlace, reset, if_neg aligned, if_pos aligned]
    rfl

end Simulator

end MipsPipeline
