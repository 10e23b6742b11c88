import MipsPipeline.Proofs.Diagnosis

/-
Assembling in two passes. The first takes the labels off the lines one after the other, with the
faults it finds in them, and puts the instructions aside; the second encodes what was put aside. Its
faults come behind those of the first, and sorted by line they are the report line by line.
-/
namespace MipsPipeline

namespace Assembly

/-- An instruction put aside, with the number of its line. -/
structure Waiting where
  number : Nat
  address : Word
  body : List Char

/-- What the first pass knows behind some line. -/
structure Survey where
  /-- The number of lines read. -/
  number : Nat := 0
  address : Word
  labels : Labels := {}
  waiting : List Waiting := []
  faults : List Diagnostic := []

def duplicate (number : Nat) (label : List Char) : Diagnostic :=
  ⟨number, .duplicateLabel (String.ofList label)⟩

/-- Takes the labels off a line: what remains is the instruction. -/
def takeLabels (number : Nat) (address : Word) (code : List Char) (labels : Labels)
    (faults : List Diagnostic) : List Char × Labels × List Diagnostic :=
  match cut : Text.cut? ':' code with
  | none => (Text.trim code, labels, faults)
  | some (front, back) =>
    let label := Text.trim front
    if isLabel label then
      takeLabels number address back (labels.insert label address)
        (if labels.contains label then faults ++ [duplicate number label] else faults)
    else ([], labels, faults ++ [⟨number, .badLabel (String.ofList label)⟩])
termination_by code.length
decreasing_by exact Text.length_of_cut? cut

namespace Survey

def read (s : Survey) (text : List Char) : Survey :=
  let number := s.number + 1
  let (body, labels, faults) :=
    takeLabels number s.address (Text.before '#' text) s.labels s.faults
  if body = [] then { s with number := number, labels := labels, faults := faults }
  else
    { number := number
      address := s.address.next
      labels := labels
      waiting := s.waiting ++ [⟨number, s.address, body⟩]
      faults := faults }

def ofLines (base : Word) (texts : List (List Char)) : Survey :=
  texts.foldl read { address := base }

end Survey

def Waiting.encode (labels : Labels) (w : Waiting) : Except Fault Word :=
  Assembly.encode labels w.address w.body

def Waiting.fault? (labels : Labels) (w : Waiting) : Option Diagnostic :=
  match w.encode labels with
  | .error fault => some ⟨w.number, fault⟩
  | .ok _ => none

def assembleInPasses (source : List Char) (base : Word) : Except (List Diagnostic) (List Word) :=
  let s := Survey.ofLines base (Text.lines source)
  let faults := s.faults ++ s.waiting.filterMap (·.fault? s.labels)
  if faults = [] then .ok (s.waiting.filterMap fun w => (w.encode s.labels).toOption)
  else .error (sortBy Diagnostic.line faults)

section Labels

variable (number : Nat) (address : Word) (labels : Labels) (faults : List Diagnostic)

theorem takeLabels_plain {code : List Char} (plain : ':' ∉ code) :
    takeLabels number address code labels faults = (Text.trim code, labels, faults) := by
  unfold takeLabels
  split
  · rfl
  · rename_i cut
    rw [Text.cut?_of_not_mem plain] at cut
    contradiction

theorem takeLabels_colon {front : List Char} (first : ':' ∉ front) (back : List Char) :
    takeLabels number address (front ++ ':' :: back) labels faults =
      if isLabel (Text.trim front) then
        takeLabels number address back (labels.insert (Text.trim front) address)
          (if labels.contains (Text.trim front) then faults ++ [duplicate number (Text.trim front)]
            else faults)
      else ([], labels, faults ++ [⟨number, .badLabel (String.ofList (Text.trim front))⟩]) := by
  rw [takeLabels]
  split
  · rename_i cut
    rw [Text.cut?_append first] at cut
    contradiction
  · rename_i front' back' cut
    rw [Text.cut?_append first] at cut
    obtain ⟨rfl, rfl⟩ := Prod.mk.inj (Option.some.inj cut)
    rfl

/-- The faults that the first pass finds in a line, behind those it has found in front of it. -/
theorem takeLabels_of_parts {code : List Char} {line : Line} (parts : Parts code line)
    (seen : Array (List Char)) :
    takeLabels number address code labels (faults ++ seen.toList.map (duplicate number)) =
      (line.body, (line.labels.foldl (Placement.define address) (labels, seen)).1,
        faults ++ (line.labels.foldl (Placement.define address) (labels, seen)).2.toList.map
            (duplicate number) ++
          line.badLabel.toList.map fun label => ⟨number, .badLabel (String.ofList label)⟩) := by
  -- Each label changes the table that decides whether the next one repeats.
  induction parts generalizing labels seen with
  | instruction plain =>
    rw [takeLabels_plain _ _ _ _ plain]
    simp
  | @label front back line first good rest ih =>
    rw [takeLabels_colon _ _ _ _ first, if_pos good, List.foldl_cons, ← ih]
    by_cases again : labels.contains (Text.trim front) = true
    · simp [Placement.define, again]
    · simp [Placement.define, again]
  | spoilt first bad =>
    rw [takeLabels_colon _ _ _ _ first, if_neg bad]
    simp

end Labels

def instructions (base : Word) (lines : List Line) : List Waiting :=
  (positions lines).filterMap fun (front, line) =>
    if line.body = [] then none
    else some ⟨front.length + 1, base + Word.ofIndex (bodies front).length, line.body⟩

def numberedLabelFaults (p : List Line × Line) : List Diagnostic :=
  (labelFaults p.1 p.2).map (Diagnostic.mk (p.1.length + 1))

section FirstPass

variable (base : Word)

theorem takeLabels_ofLines (lines : List Line) (text : List Char) (faults : List Diagnostic) :
    takeLabels (lines.length + 1) (Placement.ofLines base lines).address (Text.before '#' text)
        (Placement.ofLines base lines).labels faults =
      ((Line.ofText text).body, (Placement.ofLines base (lines ++ [Line.ofText text])).labels,
        faults ++ numberedLabelFaults (lines, Line.ofText text)) := by
  have parts : Parts (Text.before '#' text) (Line.ofText text) := parts_iff.mpr rfl
  have taken := takeLabels_of_parts (lines.length + 1) (Placement.ofLines base lines).address
    (Placement.ofLines base lines).labels faults parts #[]
  have repeated := Placement.repeated_ofLines base lines (Line.ofText text)
  unfold Placement.repeated at repeated
  rw [repeated, List.map_nil, List.append_nil] at taken
  rw [taken, Placement.ofLines_concat, numberedLabelFaults, labelFaults, List.map_append,
    List.map_map, List.map_map, List.append_assoc]
  rfl

theorem Survey.ofLines_concat (texts : List (List Char)) (text : List Char) :
    ofLines base (texts ++ [text]) = (ofLines base texts).read text := by
  rw [ofLines, List.foldl_concat]
  rfl

theorem instructions_concat (lines : List Line) (line : Line) :
    instructions base (lines ++ [line]) = instructions base lines ++ if line.body = [] then []
      else [⟨lines.length + 1, base + Word.ofIndex (bodies lines).length, line.body⟩] := by
  rw [instructions, positions_concat, List.filterMap_append, ← instructions]
  by_cases empty : line.body = [] <;> simp [empty]

theorem Survey.ofLines_eq (texts : List (List Char)) :
    ofLines base texts =
      { number := texts.length
        address := (Placement.ofLines base (texts.map Line.ofText)).address
        labels := (Placement.ofLines base (texts.map Line.ofText)).labels
        waiting := instructions base (texts.map Line.ofText)
        faults := (positions (texts.map Line.ofText)).flatMap numberedLabelFaults } := by
  induction texts using List.reverseRecOn with
  | nil => rfl
  | append_singleton front text ih =>
    have taken := takeLabels_ofLines base (front.map Line.ofText) text
    rw [List.length_map] at taken
    rw [ofLines_concat, ih, List.map_append, List.map_singleton, instructions_concat,
      positions_concat, List.flatMap_append, List.flatMap_singleton, List.length_append,
      List.length_map]
    unfold read
    simp only [taken]
    split
    · rename_i empty
      simp only [Placement.ofLines_concat, Placement.address_add, empty, ↓reduceIte,
        List.append_nil, List.length_singleton]
    · rename_i something
      simp only [Placement.ofLines_concat, Placement.address_add, something, ↓reduceIte,
        List.length_singleton, Placement.address_ofLines]

end FirstPass

section SecondPass

variable (labels : Labels) (base : Word)

theorem filterMap_instructions {β : Type} (f : Waiting → Option β) (lines : List Line) :
    (instructions base lines).filterMap f = (positions lines).filterMap fun (front, line) =>
      if line.body = [] then none
      else f ⟨front.length + 1, base + Word.ofIndex (bodies front).length, line.body⟩ := by
  rw [instructions, List.filterMap_filterMap]
  refine List.filterMap_congr ?_
  rintro ⟨front, line⟩ -
  by_cases empty : line.body = [] <;> simp [empty]

def numberedInstructionFault (p : List Line × Line) : List Diagnostic :=
  (instructionFault? labels (base + Word.ofIndex (bodies p.1).length) p.2).toList.map
    (Diagnostic.mk (p.1.length + 1))

theorem faults_instructions {lines : List Line}
    (spoilt : ∀ line ∈ lines, line.badLabel ≠ none → line.body = []) :
    (instructions base lines).filterMap (·.fault? labels) =
      (positions lines).flatMap (numberedInstructionFault labels base) := by
  rw [filterMap_instructions, List.filterMap_eq_flatMap_toList]
  refine List.flatMap_congr ?_
  rintro ⟨front, line⟩ member
  obtain ⟨back, rfl⟩ := mem_positions.mp member
  have body_empty := spoilt line (List.mem_append_right front List.mem_cons_self)
  by_cases empty : line.body = []
  · simp [numberedInstructionFault, instructionFault?, empty]
  · have good : line.badLabel = none := not_not.mp (mt body_empty empty)
    simp only [numberedInstructionFault, instructionFault?, Waiting.fault?, Waiting.encode, empty,
      good, ne_eq, not_true_eq_false, or_self, ↓reduceIte]
    cases encode labels (base + Word.ofIndex (bodies front).length) line.body <;> rfl

theorem words_instructions (lines : List Line) :
    ((instructions base lines).filterMap fun w =>
        (w.encode (Placement.ofLines base lines).labels).toOption) =
      (Placement.ofLines base lines).words := by
  rw [filterMap_instructions, Placement.words, Placement.placed_ofLines, List.filterMap_map]
  refine List.filterMap_congr ?_
  rintro ⟨front, line⟩ -
  by_cases empty : line.body = []
  · simp [Placed.encoded?, Placement.behind, empty]
  · simp [Placed.encoded?, Placement.behind, Waiting.encode, empty]

theorem sortBy_faults (lines : List Line) :
    sortBy Diagnostic.line ((positions lines).flatMap numberedLabelFaults ++
        (positions lines).flatMap (numberedInstructionFault labels base)) =
      report labels base lines := by
  have first : ∀ p, ∀ d ∈ numberedLabelFaults p, d.line = p.1.length + 1 := by
    intro p d member
    obtain ⟨fault, -, rfl⟩ := List.mem_map.mp member
    rfl
  have second : ∀ p, ∀ d ∈ numberedInstructionFault labels base p, d.line = p.1.length + 1 := by
    intro p d member
    obtain ⟨fault, -, rfl⟩ := List.mem_map.mp member
    rfl
  rw [sortBy_passes (pairwise_positions lines) first second, report]
  refine List.flatMap_congr ?_
  rintro ⟨front, line⟩ -
  exact (List.map_append ..).symm

end SecondPass

/-- The passes find the same as the assembler that goes through the lines once. -/
theorem assembleInPasses_eq (source : List Char) (base : Word) :
    assembleInPasses source base = assemble source base := by
  have program : (Text.lines source).map Line.ofText = lines source := rfl
  rw [assemble_eq_report, ← sortBy_faults]
  simp only [assembleInPasses, Survey.ofLines_eq, program,
    faults_instructions _ _ body_of_badLabel, words_instructions, sortBy_eq_nil_iff]

/-- All faults are reported in line order, those of a line as the labels of the whole program make
them, and a program is assembled if it has none. What is reported as undefined is no label of it. -/
theorem assemble_diagnoses (source : List Char) (base : Word) :
    assembleInPasses source base = assemble source base ∧
    List.Forall₂ (fun text line => Parts (Text.before '#' text) line) (Text.lines source)
      (lines source) ∧
    ∃ labels : Labels,
      (∀ label address, labels[label]? = some address ↔
        LastLabelAt base (lines source) label address) ∧
      (∀ words, assemble source base = .ok words ↔
        (∀ front line back, lines source = front ++ line :: back →
          faultsBehind labels base front line = []) ∧
        ((bodies (lines source)).mapIdx fun i body => encode labels (base + Word.ofIndex i) body) =
          words.map .ok) ∧
      (∀ diagnostics, assemble source base = .error diagnostics ↔
        (∃ front line back, lines source = front ++ line :: back ∧
          faultsBehind labels base front line ≠ []) ∧
        diagnostics = report labels base (lines source)) ∧
      (report labels base (lines source)).Pairwise (·.line ≤ ·.line) ∧
      (∀ front line back, lines source = front ++ line :: back →
        keyed Diagnostic.line (front.length + 1) (report labels base (lines source)) =
          (faultsBehind labels base front line).map (Diagnostic.mk (front.length + 1))) ∧
      ∀ number name, ⟨number, .undefinedLabel name⟩ ∈ report labels base (lines source) →
        ¬ Defines source name.toList := by
  refine ⟨assembleInPasses_eq source base, ?_, (Placement.ofLines base (lines source)).labels,
    Placement.labels_ofLines base (lines source), ?_, ?_, sorted_report, ?_, ?_⟩
  · refine List.forall₂_map_right_iff.mpr (List.forall₂_same.mpr fun text _ => ?_)
    exact parts_iff.mpr rfl
  · intro words
    exact assemble_eq_ok_iff_faultless
  · intro diagnostics
    exact assemble_eq_error_iff
  · intro front line back cut
    exact keyed_report cut
  · intro number name reported
    exact not_defines_of_report reported

-- The branch has no fault: its label is defined further on, if twice.
example : assemble "a: b: jr\n a: 9bad: foo\n foo\n beq $t0, $t1, c\n c: d: c: sll".toList 0 =
    .error [⟨1, .operandCount "jr" 1 0⟩, ⟨2, .duplicateLabel "a"⟩, ⟨2, .badLabel "9bad"⟩,
      ⟨3, .unknownMnemonic "foo"⟩, ⟨5, .duplicateLabel "c"⟩, ⟨5, .operandCount "sll" 3 0⟩] := by
  decide +kernel

end Assembly

end MipsPipeline
