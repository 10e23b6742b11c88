import MipsPipeline.Word
import MipsPipeline.Text.Numeral

/-
The settings of a simulator: where the program counter starts, the sizes of the two memories, how
many cycles of history are kept, and how many cycles one step request may run.
-/
namespace MipsPipeline

structure Settings where
  startPc : Word := 0
  /-- Report every stage of every cycle in the event log. -/
  traceStages : Bool := false
  codeWords : Nat := 1024
  dataWords : Nat := 1024
  historyLimit : Nat := 10000
  maxStepCycles : Nat := 100000
  deriving DecidableEq, Repr

inductive SettingsError where
  | codeSize (words : Nat)
  | dataSize (words : Nat)
  | startPc (pc : Word)
  | noSteps
  /-- The text is no document of settings. -/
  | malformed
  deriving DecidableEq, Repr

namespace Settings

/-- The most words whose byte addresses all fit a word. -/
def maxWords : Nat := (Word.limit - 1) / Word.bytes

def Sized (words : Nat) : Prop := 1 ≤ words ∧ words ≤ maxWords

instance (words : Nat) : Decidable (Sized words) := inferInstanceAs (Decidable (_ ∧ _))

/-- A program can start at the start address. -/
def Startable (s : Settings) : Prop := s.startPc.Aligned ∧ s.startPc.index < s.codeWords

instance (s : Settings) : Decidable s.Startable := inferInstanceAs (Decidable (_ ∧ _))

structure Valid (s : Settings) : Prop where
  code : Sized s.codeWords
  data : Sized s.dataWords
  start : s.Startable
  steps : 1 ≤ s.maxStepCycles

/-- The first rule that the settings break. -/
def fault? (s : Settings) : Option SettingsError :=
  if ¬ Sized s.codeWords then some (.codeSize s.codeWords)
  else if ¬ Sized s.dataWords then some (.dataSize s.dataWords)
  else if ¬ s.Startable then some (.startPc s.startPc)
  else if s.maxStepCycles = 0 then some .noSteps
  else none

theorem fault?_eq_none_iff (s : Settings) : s.fault? = none ↔ s.Valid := by
  constructor
  · intro h
    simp only [fault?] at h
    repeat' split at h
    all_goals first | contradiction | skip
    rename_i code data start steps
    exact ⟨by simpa using code, by simpa using data, by simpa using start, by omega⟩
  · rintro ⟨code, data, start, steps⟩
    simp [fault?, code, data, start, Nat.ne_of_gt steps]

theorem valid_default : Valid {} := by
  rw [← fault?_eq_none_iff]
  decide

end Settings

def SettingsError.message : SettingsError → String
  | .codeSize words => size "instruction_words" words
  | .dataSize words => size "data_words" words
  | .startPc pc =>
    "invalid config: general.start_pc " ++ Text.hex 0 pc.toNat
      ++ " must be word-aligned and inside instruction memory"
  | .noSteps => "invalid config: pipeline.max_step_cycles must be at least 1"
  | .malformed => "invalid config: not a settings document"
where
  size (name : String) (words : Nat) : String :=
    "invalid config: memory." ++ name ++ " must be between 1 and " ++ toString Settings.maxWords
      ++ ", got " ++ toString words

end MipsPipeline
