import Mathlib.Data.List.Nodup
import MipsPipeline.CommandLine.Output
import MipsPipeline.Proofs.Encoding
import MipsPipeline.Proofs.Operands
import MipsPipeline.Proofs.Printing
import MipsPipeline.Proofs.Service

/-
Traces. A cycle writes one register at most, the destination of the instruction that it retires, so
that a line shows one assignment at most; and a line shows every register that has changed since
the line before, so that nothing is lost between two of them and the lines can be replayed.
-/
namespace MipsPipeline

namespace RegisterFile

/-- The registers after some assignments, in order. -/
def assign (f : RegisterFile) (changes : List (Nat × Word)) : RegisterFile :=
  changes.foldl (fun f change => f.write change.1 change.2) f

theorem read_assign_map (f now : RegisterFile) (registers : List Nat) (j : Nat) :
    (f.assign (registers.map fun i => (i, now.read i))).read j =
      if j ∈ registers ∧ j ≠ 0 ∧ j < Register.count then now.read j else f.read j := by
  induction registers generalizing f with
  | nil => simp [assign]
  | cons i rest ih =>
    have next : f.assign ((i :: rest).map fun i => (i, now.read i)) =
        (f.write i (now.read i)).assign (rest.map fun i => (i, now.read i)) := rfl
    rw [next, ih, read_write]
    by_cases same : i = j
    · subst same
      by_cases register : i ≠ 0 ∧ i < Register.count <;> simp [register]
    · simp [same, Ne.symm same]

theorem mem_changes {now before : RegisterFile} {r : Nat} {value : Word} :
    (r, value) ∈ now.changes before ↔
      r < Register.count ∧ now.read r ≠ before.read r ∧ now.read r = value := by
  simp [changes, and_assoc]

theorem register_of_ne {now before : RegisterFile} {r : Nat}
    (differs : now.read r ≠ before.read r) : r ≠ 0 ∧ r < Register.count := by
  constructor
  · rintro rfl
    exact differs (now.read_zero.trans before.read_zero.symm)
  · refine Nat.lt_of_not_le fun outside => differs ?_
    rw [read_of_count_le _ outside, read_of_count_le _ outside]

/-- What has changed, assigned to the registers as they were, makes them what they are. -/
theorem assign_changes (now before : RegisterFile) : before.assign (now.changes before) = now := by
  ext1 r
  rw [changes, read_assign_map]
  by_cases same : now.read r = before.read r
  · rw [same, ite_self]
  · have register := register_of_ne same
    have listed : r ∈ (List.range Register.count).filter (fun i => now.read i ≠ before.read i) :=
      List.mem_filter.mpr ⟨List.mem_range.mpr register.2, decide_eq_true same⟩
    rw [if_pos ⟨listed, register⟩]

/-- Registers that differ in one place at most have one change at most. -/
theorem length_changes_le_one {now before : RegisterFile} {r : Nat}
    (elsewhere : ∀ i ≠ r, now.read i = before.read i) : (now.changes before).length ≤ 1 := by
  have only : ∀ i ∈ List.range Register.count,
      decide (now.read i ≠ before.read i) = true → (i == r) = true := by
    intro i _ differs
    rw [beq_iff_eq]
    by_contra other
    exact of_decide_eq_true differs (elsewhere i other)
  rw [changes, List.length_map, ← List.countP_eq_length_filter]
  exact (List.countP_mono_left only).trans (List.nodup_iff_count_le_one.mp List.nodup_range r)

end RegisterFile

namespace TraceLine

section Text

def isSpace (c : Char) : Bool := c = ' '

/-- A register and its value, written as an assignment. -/
def assignment? (text : List Char) : Option (Nat × Word) := do
  let (name, value) ← Text.cut? '=' text
  let register ← Register.index? name
  let n ← Assembly.integer? value
  pure (register, BitVec.ofInt 32 n)

/-- The assignments in the text of a line. -/
def assignments (line : String) : List (Nat × Word) :=
  (Text.tokens isSpace line.toList).filterMap assignment?

/-- The number of the cycle in the text of a line. -/
def number? (line : String) : Option Nat :=
  (Text.tokens isSpace line.toList)[1]?.bind (Text.digits? 10)

theorem not_isSpace_of_isWordChar {c : Char} (inside : Assembly.isWordChar c) : ¬ isSpace c := by
  rw [isSpace, decide_eq_true_eq]
  rintro rfl
  contradiction

theorem ne_equals_of_isWordChar {c : Char} (inside : Assembly.isWordChar c) : c ≠ '=' := by
  rintro rfl
  contradiction

/-- An assignment as it is printed. -/
def printed (change : Nat × Word) : String :=
  Register.name change.1 ++ "=" ++ toString change.2.toInt

theorem toList_printed (change : Nat × Word) : (printed change).toList =
    (Register.name change.1).toList ++ '=' :: (toString change.2.toInt).toList := by
  rw [printed, String.toList_append, String.toList_append, List.append_assoc]
  rfl

theorem tokens_equation {left right : List Char} (solid : Assembly.Solid left)
    (solid' : Assembly.Solid right) :
    Text.tokens isSpace (left ++ '=' :: right) = [left ++ '=' :: right] := by
  refine Text.tokens_of_solid (by simp) fun c member => ?_
  rcases List.mem_append.mp member with early | late
  · exact not_isSpace_of_isWordChar (solid.isWordChar c early)
  · rcases List.mem_cons.mp late with rfl | late
    · decide
    · exact not_isSpace_of_isWordChar (solid'.isWordChar c late)

theorem assignment?_equation {left : List Char} (solid : Assembly.Solid left)
    (right : List Char) :
    assignment? (left ++ '=' :: right) = (do
      let register ← Register.index? left
      let n ← Assembly.integer? right
      pure (register, BitVec.ofInt 32 n)) := by
  have first : '=' ∉ left := fun member =>
    ne_equals_of_isWordChar (solid.isWordChar '=' member) rfl
  rw [assignment?, Text.cut?_append first]
  rfl

theorem assignment?_of_solid {text : List Char} (solid : Assembly.Solid text) :
    assignment? text = none := by
  have missing : '=' ∉ text := fun member =>
    ne_equals_of_isWordChar (solid.isWordChar '=' member) rfl
  rw [assignment?, Text.cut?_of_not_mem missing]
  rfl

theorem assignment?_printed {change : Nat × Word} (register : change.1 < Register.count) :
    assignment? (printed change).toList = some change := by
  have small : change.2.toInt.natAbs < 9223372036854775808 := by
    have low := change.2.le_toInt
    have high := change.2.toInt_lt
    omega
  rw [toList_printed, assignment?_equation (Register.solid_name register),
    Register.index?_name register,
    Assembly.integer?_of_denotes (Assembly.denotes_toString change.2.toInt) small]
  simp

theorem solid_upperHex (width n : Nat) : Assembly.Solid (Text.upperHex width n).toList := by
  rw [Text.upperHex, String.toList_ofList]
  exact (Assembly.Magnitude.hexadecimal (.inl rfl) (Text.numeral_upperHexDigits width n)).solid

theorem toList_text (line : TraceLine) : line.text.toList =
    "cycle".toList ++ ' ' :: ((Text.alignRight 5 (toString line.cycle)).toList ++
      ' ' :: ' ' :: ("pc".toList ++ '=' :: (Text.upperHex 8 line.pc.toNat).toList ++
        ' ' :: ' ' :: [' '].intercalate (line.changes.map fun change =>
          (printed change).toList))) := by
  have front : "cycle ".toList = "cycle".toList ++ [' '] := rfl
  have middle : "  pc=".toList = ' ' :: ' ' :: ("pc".toList ++ ['=']) := rfl
  have gap : "  ".toList = [' ', ' '] := rfl
  rw [text]
  simp only [String.toList_append, String.toList_intercalate, List.map_map, front, middle, gap,
    List.append_assoc, List.cons_append, List.nil_append]
  rfl

theorem tokens_alignRight (width : Nat) {text : String} (solid : Assembly.Solid text.toList) :
    Text.tokens isSpace (Text.alignRight width text).toList = [text.toList] := by
  have spaces : ∀ c ∈ List.replicate (width - text.toList.length) ' ', isSpace c := by
    intro c member
    rw [List.eq_of_mem_replicate member]
    rfl
  rw [Text.alignRight, String.toList_ofList, List.leftpad,
    Text.tokens_append_of_separators spaces]
  exact Text.tokens_of_solid solid.1 fun c member =>
    not_isSpace_of_isWordChar (solid.isWordChar c member)

theorem tokens_text {line : TraceLine} (registers : ∀ change ∈ line.changes,
    change.1 < Register.count) :
    Text.tokens isSpace line.text.toList =
      "cycle".toList :: (toString line.cycle).toList ::
        ("pc".toList ++ '=' :: (Text.upperHex 8 line.pc.toNat).toList) ::
        line.changes.map fun change => (printed change).toList := by
  have space : isSpace ' ' := rfl
  have number := (Assembly.denotes_repr line.cycle).solid
  have pc := solid_upperHex 8 line.pc.toNat
  have changes : (line.changes.map fun change => (printed change).toList).flatMap
      (Text.tokens isSpace) = line.changes.map fun change => (printed change).toList := by
    have single : ∀ change ∈ line.changes, Text.tokens isSpace (printed change).toList =
        [(printed change).toList] := by
      intro change member
      rw [toList_printed]
      exact tokens_equation (Register.solid_name (registers change member))
        (Assembly.denotes_toString change.2.toInt).solid
    rw [List.flatMap_map, List.flatMap_congr single, ← List.map_eq_flatMap]
  -- From the left, with one rewriting for each space; those of the column go with its number.
  rw [toList_text, Text.tokens_append_separator _ space, Text.tokens_append_separator _ space,
    Text.tokens_cons_separator space, Text.tokens_append_separator _ space,
    Text.tokens_cons_separator space, tokens_alignRight 5 number,
    tokens_equation (by decide) pc, Text.tokens_intercalate (by simpa using space), changes]
  rfl

theorem assignments_text {line : TraceLine} (registers : ∀ change ∈ line.changes,
    change.1 < Register.count) : assignments line.text = line.changes := by
  have word : assignment? "cycle".toList = none := assignment?_of_solid (by decide)
  have number := assignment?_of_solid (Assembly.denotes_repr line.cycle).solid
  have pc : assignment? ("pc".toList ++ '=' :: (Text.upperHex 8 line.pc.toNat).toList) = none := by
    rw [assignment?_equation (by decide)]
    rfl
  have each : ∀ change ∈ line.changes,
      (assignment? ∘ fun change => (printed change).toList) change = some change :=
    fun change member => assignment?_printed (registers change member)
  rw [assignments, tokens_text registers, List.filterMap_cons_none word,
    List.filterMap_cons_none number, List.filterMap_cons_none pc, List.filterMap_map,
    List.filterMap_congr each, List.filterMap_some]

theorem number?_text {line : TraceLine} (registers : ∀ change ∈ line.changes,
    change.1 < Register.count) : number? line.text = some line.cycle := by
  have digits : Text.digits? 10 (toString line.cycle).toList = some line.cycle := by
    rw [Nat.toString_eq_ofList_toDigits, String.toList_ofList]
    exact Text.digits?_eq_some_iff.mpr (Text.numeral_decimal line.cycle)
  rw [number?, tokens_text registers]
  exact digits

end Text

end TraceLine

/-- The registers that the lines of a trace make out of registers that are all zero. -/
def RegisterFile.replay (lines : List String) : RegisterFile :=
  lines.foldl (fun f line => f.assign (TraceLine.assignments line)) .cleared

namespace Simulator

/-- The lines of `n` cycles. -/
def trace : Nat → Simulator → List TraceLine
  | 0, _ => []
  | n + 1, s => s.step.traceLine s.machine.registers :: trace n s.step

variable {s : Simulator}

theorem map_cycle_trace (s : Simulator) (n : Nat) :
    (s.trace n).map (·.cycle) = List.range' (s.cycle + 1) n := by
  induction n generalizing s with
  | zero => rfl
  | succ n ih =>
    rw [trace, List.map_cons, ih, List.range'_succ]
    rfl

theorem length_trace (s : Simulator) (n : Nat) : (s.trace n).length = n := by
  have numbered := congrArg List.length (s.map_cycle_trace n)
  rwa [List.length_map, List.length_range'] at numbered

theorem getElem?_trace (s : Simulator) {n k : Nat} (inside : k < n) :
    (s.trace n)[k]? = some ((s.run k).step.traceLine (s.run k).machine.registers) := by
  induction n generalizing s k with
  | zero => contradiction
  | succ n ih =>
    cases k with
    | zero => rfl
    | succ k => exact ih s.step (Nat.lt_of_succ_lt_succ inside)

theorem assign_trace (s : Simulator) (n : Nat) :
    (s.trace n).foldl (fun f line => f.assign line.changes) s.machine.registers =
      (s.run n).machine.registers := by
  induction n generalizing s with
  | zero => rfl
  | succ n ih =>
    rw [trace, List.foldl_cons, traceLine, RegisterFile.assign_changes]
    exact ih s.step

/-- Writeback writes one register, or it leaves all of them alone. -/
theorem retire_cases (memWb : Slot Accessed) (f : RegisterFile) :
    memWb.retire f = f ∨ ∃ a r value,
      memWb = .valid a ∧ a.write? = some (r, value) ∧ memWb.retire f = f.write r value := by
  cases memWb with
  | empty => exact .inl rfl
  | bubble => exact .inl rfl
  | valid a =>
    rw [Slot.retire, Accessed.retire]
    cases write : a.write? with
    | none => exact .inl rfl
    | some change => exact .inr ⟨a, change.1, change.2, rfl, write, rfl⟩

/-- A line has the write of the instruction in MEM/WB, unless the value was there before. -/
theorem write?_of_mem_changes {r : Nat} {value : Word}
    (changed : (r, value) ∈ (s.step.traceLine s.machine.registers).changes) :
    ∃ a, s.latches.memWb = .valid a ∧ a.write? = some (r, value) := by
  obtain ⟨-, differs, shown⟩ := RegisterFile.mem_changes.mp changed
  have after : s.step.machine.registers = s.latches.memWb.retire s.machine.registers := rfl
  rcases retire_cases s.latches.memWb s.machine.registers with
    same | ⟨a, r', value', held, write, retired⟩
  · rw [after, same] at differs
    contradiction
  · rw [after, retired, RegisterFile.read_write] at differs shown
    -- Away from the register that was written nothing differs.
    split at differs
    · rename_i here
      rw [if_pos here] at shown
      exact ⟨a, held, by rw [write, here.1, shown]⟩
    · contradiction

theorem length_changes_step (s : Simulator) :
    (s.step.traceLine s.machine.registers).changes.length ≤ 1 := by
  have after : s.step.machine.registers = s.latches.memWb.retire s.machine.registers := rfl
  rw [traceLine, after]
  rcases retire_cases s.latches.memWb s.machine.registers with
    same | ⟨a, r, value, held, write, retired⟩
  · rw [same]
    exact RegisterFile.length_changes_le_one (r := 0) fun _ _ => rfl
  · rw [retired]
    refine RegisterFile.length_changes_le_one (r := r) fun i other => ?_
    rw [RegisterFile.read_write, if_neg fun here => other here.1.symm]

/-- The changed register is the destination of the instruction that the cycle retires. -/
theorem InStep.destination_of_changed (inStep : s.InStep) {r : Nat} {value : Word}
    (changed : (r, value) ∈ (s.step.traceLine s.machine.registers).changes) :
    r ≠ 0 ∧ ∃ pc i, s.latches.retiring = some (pc, i) ∧
      (Control.ofOp i.op).destination i = r := by
  obtain ⟨a, memWb, write⟩ := write?_of_mem_changes changed
  obtain ⟨p, follows⟩ := inStep
  have fills := follows.memWb
  rw [memWb] at fills
  obtain ⟨-, i, -, carries⟩ := fills
  simp only [Accessed.write?, Option.ite_none_right_eq_some, Option.some.injEq,
    Prod.mk.injEq] at write
  obtain ⟨⟨-, nonzero⟩, rfl, -⟩ := write
  refine ⟨nonzero, a.pc, a.inst, ?_, ?_⟩
  · rw [Latches.retiring, memWb]
    rfl
  · rw [carries.inst, carries.dest]

theorem exists_of_mem_trace {n : Nat} {line : TraceLine} (member : line ∈ s.trace n) :
    ∃ k, line = (s.run k).step.traceLine (s.run k).machine.registers := by
  obtain ⟨k, here⟩ := List.mem_iff_getElem?.mp member
  obtain ⟨inside, -⟩ := List.getElem?_eq_some_iff.mp here
  rw [length_trace] at inside
  rw [s.getElem?_trace inside] at here
  exact ⟨k, (Option.some.inj here).symm⟩

theorem register_of_mem_trace {n : Nat} {line : TraceLine} (member : line ∈ s.trace n) :
    ∀ change ∈ line.changes, change.1 < Register.count := by
  obtain ⟨k, rfl⟩ := exists_of_mem_trace member
  exact fun change changed => (RegisterFile.mem_changes.mp changed).1

/-- What the printed lines of a run tell about it. -/
structure Traces (first last : Simulator) (lines : List TraceLine) : Prop where
  /-- There is a line for every cycle, and their numbers go up from 1. -/
  numbers : lines.map (TraceLine.number? ·.text) = (List.range' 1 last.cycle).map some
  printed : ∀ line ∈ lines, TraceLine.assignments line.text = line.changes
  single : ∀ line ∈ lines, line.changes.length ≤ 1
  destination : ∀ k line, lines[k]? = some line → ∀ r value, (r, value) ∈ line.changes →
    r ≠ 0 ∧ ∃ pc i, (first.run k).latches.retiring = some (pc, i) ∧
      (Control.ofOp i.op).destination i = r
  replay : RegisterFile.replay (lines.map (·.text)) = last.machine.registers

/-- A simulator that is new but for its program. -/
structure Unused (s : Simulator) : Prop where
  fresh : s.latches = {}
  registers : s.machine.registers = .cleared
  cycle : s.cycle = 0

theorem Unused.traces (unused : s.Unused) (n : Nat) : s.Traces (s.run n) (s.trace n) where
  numbers := by
    have shown : ∀ line ∈ s.trace n, TraceLine.number? line.text = some line.cycle :=
      fun line member => TraceLine.number?_text (register_of_mem_trace member)
    rw [List.map_congr_left shown, cycle_run, unused.cycle, Nat.zero_add]
    have numbered := congrArg (List.map some) (s.map_cycle_trace n)
    rwa [List.map_map, unused.cycle] at numbered
  printed := fun line member => TraceLine.assignments_text (register_of_mem_trace member)
  single := by
    intro line member
    obtain ⟨k, rfl⟩ := exists_of_mem_trace member
    exact (s.run k).length_changes_step
  destination := by
    intro k line here r value changed
    obtain ⟨inside, -⟩ := List.getElem?_eq_some_iff.mp here
    rw [length_trace] at inside
    rw [s.getElem?_trace inside] at here
    obtain rfl := Option.some.inj here
    exact ((inStep_of_fresh unused.fresh).run k).destination_of_changed changed
  replay := by
    have same : ∀ (f : RegisterFile), ∀ line ∈ s.trace n,
        f.assign (TraceLine.assignments line.text) = f.assign line.changes := by
      intro f line member
      rw [TraceLine.assignments_text (register_of_mem_trace member)]
    rw [RegisterFile.replay, List.foldl_map, ← s.assign_trace n, unused.registers]
    exact List.foldl_ext _ _ _ same

end Simulator

end MipsPipeline
