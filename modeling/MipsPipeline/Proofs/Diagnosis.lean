import MipsPipeline.Proofs.Acceptance
import MipsPipeline.Proofs.Sorting

/-
What is wrong with the lines of a program, each line by itself: the labels that were defined before,
then the text that is no label or else the fault of the instruction.
-/
namespace MipsPipeline.Assembly

/-- The members of a list, each with those in front of it. -/
def positions {α : Type} (xs : List α) : List (List α × α) :=
  xs.zipIdx.map fun (x, i) => (xs.take i, x)

/-- The labels of a list that are known or stand in the list before. -/
def repeats (known labels : List (List Char)) : List (List Char) :=
  ((positions labels).filter fun (front, label) => label ∈ known ++ front).map Prod.snd

/-- The faults in front of the instruction of a line, behind the lines `front`. -/
def labelFaults (front : List Line) (line : Line) : List Fault :=
  (repeats (front.flatMap (·.labels)) line.labels).map (Fault.duplicateLabel <| String.ofList ·) ++
    line.badLabel.toList.map (Fault.badLabel <| String.ofList ·)

/-- The fault of the instruction; a spoilt line has none. -/
def instructionFault? (labels : Labels) (address : Word) (line : Line) : Option Fault :=
  if line.badLabel ≠ none ∨ line.body = [] then none
  else match encode labels address line.body with
    | .error fault => some fault
    | .ok _ => none

def faultsBehind (labels : Labels) (base : Word) (front : List Line) (line : Line) : List Fault :=
  labelFaults front line ++
    (instructionFault? labels (base + Word.ofIndex (bodies front).length) line).toList

def report (labels : Labels) (base : Word) (lines : List Line) : List Diagnostic :=
  (positions lines).flatMap fun (front, line) =>
    (faultsBehind labels base front line).map (Diagnostic.mk (front.length + 1))

section Positions

variable {α : Type}

theorem positions_concat (xs : List α) (x : α) :
    positions (xs ++ [x]) = positions xs ++ [(xs, x)] := by
  have early : ∀ p ∈ xs.zipIdx, ((xs ++ [x]).take p.2, p.1) = (xs.take p.2, p.1) := by
    intro p member
    have inside := List.snd_lt_of_mem_zipIdx member
    rw [List.take_append_of_le_length (by omega)]
  have last : (xs ++ [x]).take xs.length = xs := List.take_left
  rw [positions, List.zipIdx_append, List.map_append, List.map_congr_left early, Nat.zero_add]
  simp only [List.zipIdx_singleton, List.map_singleton, last]
  rfl

theorem mem_positions {xs front : List α} {x : α} :
    (front, x) ∈ positions xs ↔ ∃ back, xs = front ++ x :: back := by
  induction xs using List.reverseRecOn with
  | nil => simp [positions]
  | append_singleton rest last ih =>
    rw [positions_concat, List.mem_append, ih, List.mem_singleton, Prod.mk.injEq]
    simp only [concat_eq_append_cons_iff]
    constructor
    · rintro (⟨back, cut⟩ | ⟨rfl, rfl⟩)
      · exact ⟨back ++ [last], .inr ⟨back, rfl, cut⟩⟩
      · exact ⟨[], .inl ⟨rfl, rfl, rfl⟩⟩
    · rintro ⟨back, ⟨rfl, rfl, -⟩ | ⟨back', -, cut⟩⟩
      · exact .inr ⟨rfl, rfl⟩
      · exact .inl ⟨back', cut⟩

theorem pairwise_positions (xs : List α) :
    (positions xs).Pairwise fun p q => p.1.length + 1 < q.1.length + 1 := by
  induction xs using List.reverseRecOn with
  | nil => exact .nil
  | append_singleton rest last ih =>
    rw [positions_concat, List.pairwise_append]
    refine ⟨ih, List.pairwise_singleton _ _, ?_⟩
    rintro ⟨front, x⟩ member q final
    obtain ⟨back, rfl⟩ := mem_positions.mp member
    rw [List.mem_singleton.mp final]
    simp only [List.length_append, List.length_cons]
    omega

end Positions

section Repeats

theorem repeats_concat (known labels : List (List Char)) (label : List Char) :
    repeats known (labels ++ [label]) =
      repeats known labels ++ if label ∈ known ++ labels then [label] else [] := by
  rw [repeats, positions_concat, List.filter_append, List.map_append, ← repeats]
  by_cases again : label ∈ known ++ labels
  · simp only [List.filter_singleton, again, decide_true, cond_true, ↓reduceIte, List.map_singleton]
  · simp only [List.filter_singleton, again, decide_false, cond_false, ↓reduceIte, List.map_nil]

theorem repeated_foldl_define (address : Word) (known : Labels) (names labels : List (List Char))
    (listed : ∀ label, known.contains label ↔ label ∈ names) :
    (labels.foldl (Placement.define address) (known, #[])).2.toList = repeats names labels := by
  -- Whether a label repeats depends on all that stand in front of it, so the last one goes first.
  induction labels using List.reverseRecOn with
  | nil => rfl
  | append_singleton front label ih =>
    have seen : (front.foldl (Placement.define address) (known, #[])).1.contains label ↔
        label ∈ names ++ front := by
      rw [Std.TreeMap.contains_eq_isSome_getElem?, Placement.getElem?_foldl_define,
        List.mem_append, ← listed, Std.TreeMap.contains_eq_isSome_getElem?]
      by_cases member : label ∈ front
      · simp [member]
      · simp [member]
    rw [List.foldl_concat, repeats_concat, ← ih]
    by_cases again : label ∈ names ++ front
    · rw [if_pos again]
      simp only [Placement.define, seen.mpr again, ↓reduceIte, Array.toList_push]
    · have fresh := mt seen.mp again
      simp only [Placement.define, fresh, again, Bool.false_eq_true, ↓reduceIte, List.append_nil]

end Repeats

namespace Placement

variable (base : Word) (lines : List Line)

theorem contains_ofLines (label : List Char) :
    (ofLines base lines).labels.contains label ↔ label ∈ lines.flatMap (·.labels) := by
  induction lines using List.reverseRecOn with
  | nil => simp [ofLines]
  | append_singleton front line ih =>
    rw [Std.TreeMap.contains_eq_isSome_getElem?] at ih
    rw [Std.TreeMap.contains_eq_isSome_getElem?, ofLines_concat, labels_add,
      List.flatMap_append, List.mem_append, List.flatMap_singleton, ← ih]
    by_cases member : label ∈ line.labels
    · simp [member]
    · simp [member]

theorem repeated_ofLines (line : Line) :
    (ofLines base lines).repeated line = repeats (lines.flatMap (·.labels)) line.labels :=
  repeated_foldl_define _ _ _ _ (contains_ofLines base lines)

theorem placed_ofLines : (ofLines base lines).placed.toList =
    (positions lines).map fun (front, line) => behind base front line := by
  induction lines using List.reverseRecOn with
  | nil => rfl
  | append_singleton front line ih =>
    rw [placed_concat, ih, positions_concat, List.map_append]
    rfl

end Placement

theorem Parts.body_of_badLabel {text : List Char} {line : Line} (parts : Parts text line)
    (spoilt : line.badLabel ≠ none) : line.body = [] := by
  induction parts with
  | instruction plain => contradiction
  | label first good rest ih => exact ih spoilt
  | spoilt first bad => rfl

theorem body_of_badLabel {source : List Char} :
    ∀ line ∈ lines source, line.badLabel ≠ none → line.body = [] := by
  intro line listed spoilt
  obtain ⟨text, -, rfl⟩ := List.mem_map.mp listed
  have parts : Parts (Text.before '#' text) (Line.ofText text) := parts_iff.mpr rfl
  exact parts.body_of_badLabel spoilt

section Faults

variable (labels : Labels) (base : Word)

theorem faults_behind (front : List Line) {line : Line}
    (spoilt : line.badLabel ≠ none → line.body = []) :
    (Placement.behind base front line).faults
        ((Placement.behind base front line).encoded? labels) =
      faultsBehind labels base front line := by
  have nothing_said : (line.badLabel ≠ none ∨ line.body = []) ↔ line.body = [] :=
    ⟨fun either => either.elim spoilt id, .inr⟩
  simp only [Placed.faults, Placed.encoded?, Placement.behind, Placement.repeated_ofLines,
    faultsBehind, labelFaults, instructionFault?, nothing_said]
  by_cases empty : line.body = []
  · simp only [empty, ↓reduceIte, Option.toList_none]
  · simp only [empty, ↓reduceIte]
    cases encode labels (base + Word.ofIndex (bodies front).length) line.body <;> rfl

theorem diagnostics_eq_report {lines : List Line}
    (spoilt : ∀ line ∈ lines, line.badLabel ≠ none → line.body = []) :
    (Placement.ofLines base lines).diagnostics =
      report (Placement.ofLines base lines).labels base lines := by
  rw [Placement.diagnostics, Placement.placed_ofLines, report, List.flatMap_map]
  refine List.flatMap_congr ?_
  rintro ⟨front, line⟩ member
  obtain ⟨back, rfl⟩ := mem_positions.mp member
  have listed : line ∈ front ++ line :: back := List.mem_append_right front List.mem_cons_self
  rw [faults_behind _ _ _ (spoilt line listed)]
  rfl

end Faults

section Report

variable {labels : Labels} {base : Word} {lines : List Line}

theorem line_of_report (p : List Line × Line) :
    ∀ d ∈ (faultsBehind labels base p.1 p.2).map (Diagnostic.mk (p.1.length + 1)),
      d.line = p.1.length + 1 := by
  intro d member
  obtain ⟨fault, -, rfl⟩ := List.mem_map.mp member
  rfl

theorem sorted_report : (report labels base lines).Pairwise (·.line ≤ ·.line) :=
  sorted_flatMap (pairwise_positions lines) line_of_report

/-- What the report has of a line is what is wrong with the line. -/
theorem keyed_report {front back : List Line} {line : Line} (cut : lines = front ++ line :: back) :
    keyed Diagnostic.line (front.length + 1) (report labels base lines) =
      (faultsBehind labels base front line).map (Diagnostic.mk (front.length + 1)) := by
  have member : (front, line) ∈ positions lines := mem_positions.mpr ⟨back, cut⟩
  rw [report, keyed_flatMap line_of_report, keyed_of_mem (pairwise_positions lines) member,
    List.flatMap_singleton]

theorem report_eq_nil_iff : report labels base lines = [] ↔
    ∀ front line back, lines = front ++ line :: back →
      faultsBehind labels base front line = [] := by
  simp only [report, List.flatMap_eq_nil_iff, List.map_eq_nil_iff, Prod.forall, mem_positions,
    forall_exists_index]

end Report

theorem assemble_eq_report (source : List Char) (base : Word) :
    assemble source base =
      if report (Placement.ofLines base (lines source)).labels base (lines source) = [] then
        .ok (Placement.ofLines base (lines source)).words
      else .error (report (Placement.ofLines base (lines source)).labels base (lines source)) := by
  rw [assemble_eq, diagnostics_eq_report base body_of_badLabel]

section Outcome

variable {source : List Char} {base : Word}

theorem assemble_eq_ok_iff_faultless {words : List Word} : assemble source base = .ok words ↔
    (∀ front line back, lines source = front ++ line :: back →
      faultsBehind (Placement.ofLines base (lines source)).labels base front line = []) ∧
    encodings base (lines source) = words.map .ok := by
  rw [assemble_eq_ok_iff, ← report_eq_nil_iff, ← diagnostics_eq_report base body_of_badLabel,
    diagnostics_eq_nil_iff]
  constructor
  · rintro ⟨unspoilt, encoded⟩
    exact ⟨⟨unspoilt, by simp [encoded]⟩, encoded⟩
  · rintro ⟨⟨unspoilt, -⟩, encoded⟩
    exact ⟨unspoilt, encoded⟩

theorem assemble_eq_error_iff {diagnostics : List Diagnostic} :
    assemble source base = .error diagnostics ↔
      (∃ front line back, lines source = front ++ line :: back ∧
        faultsBehind (Placement.ofLines base (lines source)).labels base front line ≠ []) ∧
      diagnostics = report (Placement.ofLines base (lines source)).labels base (lines source) := by
  have faulty_line :
      report (Placement.ofLines base (lines source)).labels base (lines source) ≠ [] ↔
      ∃ front line back, lines source = front ++ line :: back ∧
        faultsBehind (Placement.ofLines base (lines source)).labels base front line ≠ [] := by
    rw [Ne, report_eq_nil_iff]
    simp only [not_forall, exists_prop, Ne]
  rw [assemble_eq_report, ← faulty_line]
  split
  · rename_i clean
    simp [clean]
  · rename_i faulty
    rw [Except.error.injEq, eq_comm]
    exact (and_iff_right faulty).symm

end Outcome

section Undefined

variable {labels : Labels} {address : Word} {name : String} {operand : List Char}

theorem register_ne_undefined : register operand ≠ .error (.undefinedLabel name) := by
  unfold register
  split <;> simp

theorem integerWithin_ne_undefined {low high : Int} :
    integerWithin low high operand ≠ .error (.undefinedLabel name) := by
  unfold integerWithin
  split
  · split <;> simp
  · simp

theorem eq_of_literalDestination
    (missing : literalDestination operand = .error (.undefinedLabel name)) :
    name.toList = operand := by
  unfold literalDestination at missing
  split at missing
  · contradiction
  · split at missing
    · obtain rfl := Fault.undefinedLabel.inj (Except.error.inj missing)
      exact String.toList_ofList
    · have impossible := Except.error.inj missing
      contradiction

theorem unknown_of_branchOffset
    (missing : branchOffset labels address operand = .error (.undefinedLabel name)) :
    labels[name.toList]? = none := by
  cases found : labels[operand]? with
  | none =>
    simp only [branchOffset, found, bind_eq_error_iff] at missing
    rcases missing with unread | ⟨n, -, checked⟩
    · rwa [eq_of_literalDestination unread]
    · split at checked
      · contradiction
      · have impossible := Except.error.inj checked
        contradiction
  | some goal =>
    simp only [branchOffset, found, pure_bind] at missing
    split at missing
    · contradiction
    · have impossible := Except.error.inj missing
      contradiction

theorem unknown_of_jumpWord (missing : jumpWord labels operand = .error (.undefinedLabel name)) :
    labels[name.toList]? = none := by
  unfold jumpWord at missing
  split at missing
  · contradiction
  · rename_i unknown
    rwa [eq_of_literalDestination missing]

theorem unknown_of_encodeOperands {op : Op} {operands : List (List Char)}
    (missing : encodeOperands labels address op operands = .error (.undefinedLabel name)) :
    labels[name.toList]? = none := by
  unfold encodeOperands at missing
  split at missing
  case h_7 =>
    simp only [bind_eq_error_iff, register_ne_undefined, false_or] at missing
    obtain ⟨rs, -, rt, -, offset | ⟨n, -, impossible⟩⟩ := missing
    · exact unknown_of_branchOffset offset
    · contradiction
  case h_8 =>
    rw [bind_eq_error_iff] at missing
    rcases missing with word | ⟨n, -, impossible⟩
    · exact unknown_of_jumpWord word
    · contradiction
  -- No other layout has an operand that could be a label.
  all_goals
    simp [bind_eq_error_iff, register_ne_undefined, shiftAmount, halfword,
      integerWithin_ne_undefined, pure, Except.pure] at missing

/-- A label that is reported as undefined is not in the table. -/
theorem unknown_of_encode {body : List Char}
    (missing : encode labels address body = .error (.undefinedLabel name)) :
    labels[name.toList]? = none := by
  unfold encode at missing
  split at missing
  · contradiction
  · simp only at missing
    split at missing
    · split at missing
      · contradiction
      · have impossible := Except.error.inj missing
        contradiction
    · split at missing
      · exact unknown_of_encodeOperands missing
      · have impossible := Except.error.inj missing
        contradiction

end Undefined

theorem not_defines_of_report {source : List Char} {base : Word} {number : Nat} {name : String}
    (reported : ⟨number, .undefinedLabel name⟩ ∈
      report (Placement.ofLines base (lines source)).labels base (lines source)) :
    ¬ Defines source name.toList := by
  intro defines
  obtain ⟨address, found⟩ := found_of_defines base defines
  obtain ⟨⟨front, line⟩, -, listed⟩ := List.mem_flatMap.mp reported
  obtain ⟨fault, faulty, same⟩ := List.mem_map.mp listed
  obtain ⟨-, rfl⟩ := Diagnostic.mk.inj same
  have instruction := (List.mem_append.mp faulty).resolve_left (by simp [labelFaults])
  rw [Option.mem_toList, instructionFault?] at instruction
  split at instruction
  · contradiction
  · split at instruction
    · rename_i rejected
      rw [Option.some.inj instruction] at rejected
      rw [unknown_of_encode rejected] at found
      contradiction
    · contradiction

end MipsPipeline.Assembly
