import Mathlib.Data.List.Induction
import Mathlib.Data.List.TakeWhile
import MipsPipeline.Assembly.Program
import MipsPipeline.Proofs.Address

/-
Where the lines of a program go. The instruction with an index is at that many words behind the
base, a label has the address of the instruction that follows its last definition, and a program
assembles just if no label is bad or repeated and every instruction has an encoding.
-/
namespace MipsPipeline.Assembly

/-- The instructions as written, in order. -/
def bodies (lines : List Line) : List (List Char) := (lines.map (·.body)).filter (· ≠ [])

/-- The label is in front of the instruction that goes to this address. -/
def LabelAt (base : Word) (lines : List Line) (label : List Char) (address : Word) : Prop :=
  ∃ front line back, lines = front ++ line :: back ∧ label ∈ line.labels ∧
    address = base + Word.ofIndex (bodies front).length

/-- The same of the last line that defines the label. -/
def LastLabelAt (base : Word) (lines : List Line) (label : List Char) (address : Word) : Prop :=
  ∃ front line back, lines = front ++ line :: back ∧ label ∈ line.labels ∧
    (∀ later ∈ back, label ∉ later.labels) ∧ address = base + Word.ofIndex (bodies front).length

theorem concat_eq_append_cons_iff {α : Type} {front rest back : List α} {x y : α} :
    rest ++ [x] = front ++ y :: back ↔
      (rest = front ∧ x = y ∧ back = []) ∨
        ∃ back', back = back' ++ [x] ∧ rest = front ++ y :: back' := by
  constructor
  · intro same
    induction back using List.reverseRecOn with
    | nil =>
      obtain ⟨rfl, last⟩ := List.append_inj' same rfl
      exact .inl ⟨rfl, List.cons.inj last |>.1, rfl⟩
    | append_singleton back' z =>
      rw [← List.cons_append, ← List.append_assoc] at same
      obtain ⟨rfl, last⟩ := List.append_inj' same rfl
      exact .inr ⟨back', by rw [last], rfl⟩
  · rintro (⟨rfl, rfl, rfl⟩ | ⟨back', rfl, rfl⟩)
    · rfl
    · rw [List.append_assoc, List.cons_append]

theorem bodies_append (front back : List Line) :
    bodies (front ++ back) = bodies front ++ bodies back := by
  rw [bodies, List.map_append, List.filter_append]
  rfl

theorem bodies_singleton (line : Line) :
    bodies [line] = if line.body = [] then [] else [line.body] := by
  by_cases empty : line.body = [] <;> simp [bodies, empty]

namespace Placement

theorem ofLines_concat (base : Word) (lines : List Line) (line : Line) :
    ofLines base (lines ++ [line]) = (ofLines base lines).add line := by
  rw [ofLines, List.foldl_append]
  rfl

/-- The labels of a line that have been defined before. -/
def repeated (p : Placement) (line : Line) : List (List Char) :=
  (line.labels.foldl (define p.address) (p.labels, #[])).2.toList

theorem placed_add (p : Placement) (line : Line) :
    (p.add line).placed =
      p.placed.push ⟨p.placed.size + 1, p.address, line, p.repeated line⟩ := rfl

theorem address_add (p : Placement) (line : Line) :
    (p.add line).address = if line.body = [] then p.address else p.address.next := rfl

theorem getElem?_foldl_define (address : Word) (label : List Char) (names : List (List Char))
    (known : Labels × Array (List Char)) :
    (names.foldl (define address) known).1[label]? =
      if label ∈ names then some address else known.1[label]? := by
  induction names generalizing known with
  | nil => rfl
  | cons name rest ih =>
    rw [List.foldl_cons, ih]
    simp only [define, Std.TreeMap.getElem?_insert, Std.LawfulEqCmp.compare_eq_iff_eq,
      List.mem_cons]
    by_cases later : label ∈ rest
    · simp [later]
    · by_cases here : label = name
      · simp [here]
      · simp [later, here, Ne.symm here]

theorem labels_add (p : Placement) (line : Line) (label : List Char) :
    (p.add line).labels[label]? =
      if label ∈ line.labels then some p.address else p.labels[label]? :=
  getElem?_foldl_define p.address label line.labels _

theorem fresh_of_foldl_define {address : Word} {names : List (List Char)}
    {known : Labels × Array (List Char)}
    (nothing : (names.foldl (define address) known).2 = #[]) :
    known.2 = #[] ∧ ∀ label ∈ names, known.1[label]? = none := by
  induction names generalizing known with
  | nil => exact ⟨nothing, by simp⟩
  | cons name rest ih =>
    obtain ⟨before, later⟩ := ih nothing
    by_cases old : known.1.contains name = true
    · have kept : known.2.push name = #[] := (if_pos old).symm.trans before
      simp at kept
    · refine ⟨(if_neg old).symm.trans before, ?_⟩
      intro label member
      rcases List.mem_cons.mp member with rfl | member
      · rw [Std.TreeMap.contains_eq_isSome_getElem?] at old
        exact Option.not_isSome_iff_eq_none.mp old
      · have unknown := later label member
        simp only [define, Std.TreeMap.getElem?_insert] at unknown
        split at unknown
        · contradiction
        · exact unknown

theorem fresh_of_repeated_eq_nil {p : Placement} {line : Line} (nothing : p.repeated line = [])
    {label : List Char} (member : label ∈ line.labels) : p.labels[label]? = none :=
  (fresh_of_foldl_define (Array.toList_eq_nil_iff.mp nothing)).2 label member

variable (base : Word) (lines : List Line)

theorem size_placed : (ofLines base lines).placed.size = lines.length := by
  induction lines using List.reverseRecOn with
  | nil => rfl
  | append_singleton front line ih =>
    rw [ofLines_concat, placed_add, Array.size_push, ih, List.length_append]
    rfl

theorem address_ofLines :
    (ofLines base lines).address = base + Word.ofIndex (bodies lines).length := by
  induction lines using List.reverseRecOn with
  | nil => exact (Word.add_ofIndex_zero base).symm
  | append_singleton front line ih =>
    rw [ofLines_concat, address_add, bodies_append, bodies_singleton, ih]
    split
    · rw [List.append_nil]
    · rw [Word.next_add_ofIndex, List.length_append, List.length_singleton]

theorem labels_ofLines (label : List Char) (address : Word) :
    (ofLines base lines).labels[label]? = some address ↔ LastLabelAt base lines label address := by
  induction lines using List.reverseRecOn with
  | nil =>
    constructor
    · intro found
      simp [ofLines] at found
    · rintro ⟨front, line, back, impossible, -⟩
      simp at impossible
  | append_singleton front line ih =>
    -- The last line has the say: only what it does not define is looked up in front of it.
    rw [ofLines_concat, labels_add]
    constructor
    · intro found
      split at found
      · rename_i member
        refine ⟨front, line, [], rfl, member, by simp, ?_⟩
        rw [← address_ofLines]
        exact (Option.some.inj found).symm
      · rename_i other
        obtain ⟨front', line', back', rfl, member, last, at_address⟩ := ih.mp found
        refine ⟨front', line', back' ++ [line], by simp, member, ?_, at_address⟩
        intro later between
        rcases List.mem_append.mp between with early | final
        · exact last later early
        · rwa [List.mem_singleton.mp final]
    · rintro ⟨front', line', back', cut, member, last, rfl⟩
      rcases concat_eq_append_cons_iff.mp cut with ⟨rfl, rfl, rfl⟩ | ⟨back'', rfl, rfl⟩
      · rw [if_pos member, address_ofLines]
      · rw [if_neg (last line (by simp))]
        refine ih.mpr ⟨front', line', back'', rfl, member, ?_, rfl⟩
        exact fun later between => last later (List.mem_append_left _ between)

/-- A line behind the lines `front`. -/
def behind (front : List Line) (line : Line) : Placed where
  number := front.length + 1
  address := base + Word.ofIndex (bodies front).length
  line := line
  repeated := (ofLines base front).repeated line

theorem placed_concat (line : Line) :
    (ofLines base (lines ++ [line])).placed.toList =
      (ofLines base lines).placed.toList ++ [behind base lines line] := by
  rw [ofLines_concat, placed_add, Array.toList_push, size_placed, address_ofLines]
  rfl

theorem mem_placed_iff (q : Placed) :
    q ∈ (ofLines base lines).placed.toList ↔
      ∃ front line back, lines = front ++ line :: back ∧ q = behind base front line := by
  induction lines using List.reverseRecOn with
  | nil =>
    constructor
    · intro impossible
      simp [ofLines] at impossible
    · rintro ⟨front, line, back, impossible, -⟩
      simp at impossible
  | append_singleton front line ih =>
    rw [placed_concat, List.mem_append, List.mem_singleton, ih]
    constructor
    · rintro (⟨front', line', back', rfl, rfl⟩ | rfl)
      · exact ⟨front', line', back' ++ [line], by simp, rfl⟩
      · exact ⟨front, line, [], rfl, rfl⟩
    · rintro ⟨front', line', back', cut, rfl⟩
      rcases concat_eq_append_cons_iff.mp cut with ⟨rfl, rfl, rfl⟩ | ⟨back'', rfl, rfl⟩
      · exact .inr rfl
      · exact .inl ⟨front', line', back'', rfl, rfl⟩

/-- The instructions are encoded one by one at the addresses behind the base. -/
theorem filterMap_encoded? (labels : Labels) :
    (ofLines base lines).placed.toList.filterMap (·.encoded? labels) =
      (bodies lines).mapIdx fun i body => encode labels (base + Word.ofIndex i) body := by
  induction lines using List.reverseRecOn with
  | nil => rfl
  | append_singleton front line ih =>
    rw [placed_concat, List.filterMap_append, ih, bodies_append, bodies_singleton]
    by_cases empty : line.body = []
    · simp [Placed.encoded?, behind, empty]
    · simp [Placed.encoded?, behind, empty, List.mapIdx_concat]

/-- All faults of the program. -/
def diagnostics (p : Placement) : List Diagnostic :=
  p.placed.toList.flatMap fun q => (q.faults (q.encoded? p.labels)).map (Diagnostic.mk q.number)

def words (p : Placement) : List Word :=
  p.placed.toList.filterMap fun q => (q.encoded? p.labels).bind (·.toOption)

end Placement

theorem assemble_eq (source : List Char) (base : Word) :
    assemble source base =
      if (Placement.ofLines base (lines source)).diagnostics = [] then
        .ok (Placement.ofLines base (lines source)).words
      else .error (Placement.ofLines base (lines source)).diagnostics := by
  simp only [assemble, Placement.diagnostics, Placement.words, List.flatMap_map,
    List.filterMap_map]
  rfl

theorem Placed.faults_eq_nil_iff (q : Placed) (encoded? : Option (Except Fault Word)) :
    q.faults encoded? = [] ↔ q.repeated = [] ∧ q.line.badLabel = none ∧
      ∀ fault, encoded? ≠ some (.error fault) := by
  unfold Placed.faults
  rcases encoded? with - | fault | word <;> simp

theorem Placed.mem_faults_of_encoded? (q : Placed) (fault : Fault) :
    fault ∈ q.faults (some (.error fault)) := by
  simp [Placed.faults]

/-- No label of the program is bad, and none is repeated. -/
def Unspoilt (base : Word) (lines : List Line) : Prop :=
  ∀ front line back, lines = front ++ line :: back →
    (Placement.ofLines base front).repeated line = [] ∧ line.badLabel = none

/-- What becomes of the instructions under the labels of the whole program. -/
def encodings (base : Word) (lines : List Line) : List (Except Fault Word) :=
  (bodies lines).mapIdx fun i body =>
    encode (Placement.ofLines base lines).labels (base + Word.ofIndex i) body

theorem words_ofLines (base : Word) (lines : List Line) :
    (Placement.ofLines base lines).words = (encodings base lines).filterMap (·.toOption) := by
  rw [encodings, ← Placement.filterMap_encoded?, List.filterMap_filterMap]
  rfl

theorem diagnostics_eq_nil_iff (base : Word) (lines : List Line) :
    (Placement.ofLines base lines).diagnostics = [] ↔
      Unspoilt base lines ∧ ∀ fault, .error fault ∉ encodings base lines := by
  rw [encodings, ← Placement.filterMap_encoded?]
  simp only [Placement.diagnostics, List.flatMap_eq_nil_iff, List.map_eq_nil_iff,
    Placed.faults_eq_nil_iff, List.mem_filterMap, not_exists, not_and]
  constructor
  · intro clean
    refine ⟨?_, fun fault q member => (clean q member).2.2 fault⟩
    intro front line back cut
    obtain ⟨fresh, good, -⟩ :=
      clean _ ((Placement.mem_placed_iff base lines _).mpr ⟨front, line, back, cut, rfl⟩)
    exact ⟨fresh, good⟩
  · rintro ⟨unspoilt, encoded⟩ q member
    have no_fault := fun fault => encoded fault q member
    obtain ⟨front, line, back, cut, rfl⟩ := (Placement.mem_placed_iff base lines q).mp member
    obtain ⟨fresh, good⟩ := unspoilt front line back cut
    exact ⟨fresh, good, no_fault⟩

theorem filterMap_toOption_iff {ε α : Type} {results : List (Except ε α)} {values : List α} :
    (∀ e, .error e ∉ results) ∧ results.filterMap (·.toOption) = values ↔
      results = values.map .ok := by
  constructor
  · rintro ⟨no_error, rfl⟩
    induction results with
    | nil => rfl
    | cons result rest ih =>
      have tail := ih fun e member => no_error e (List.mem_cons_of_mem result member)
      cases result with
      | error e => exact absurd List.mem_cons_self (no_error e)
      | ok value => exact congrArg (.ok value :: ·) tail
  · rintro rfl
    refine ⟨by simp, ?_⟩
    rw [List.filterMap_map]
    exact List.filterMap_some

theorem isLabel_of_mem_labels {text label : List Char}
    (member : label ∈ (Line.ofText text).labels) : isLabel label := by
  simp only [Line.ofText] at member
  split at member <;> exact List.mem_takeWhile_imp member

/-- Only a label has an address. -/
theorem isLabel_of_labels {source label : List Char} {base address : Word}
    (found : (Placement.ofLines base (lines source)).labels[label]? = some address) :
    isLabel label := by
  obtain ⟨front, line, back, cut, member, -⟩ := (Placement.labels_ofLines _ _ _ _).mp found
  have listed : line ∈ lines source := cut ▸ List.mem_append_right front List.mem_cons_self
  obtain ⟨text, -, rfl⟩ := List.mem_map.mp listed
  exact isLabel_of_mem_labels member

/-- A program assembles just if its labels are in order and every instruction has an encoding, and
the words are these encodings. -/
theorem assemble_eq_ok_iff {source : List Char} {base : Word} {words : List Word} :
    assemble source base = .ok words ↔
      Unspoilt base (lines source) ∧ encodings base (lines source) = words.map .ok := by
  rw [assemble_eq, words_ofLines, ← filterMap_toOption_iff, ← and_assoc,
    ← diagnostics_eq_nil_iff]
  split
  · rename_i clean
    simp [clean]
  · rename_i faulty
    simp [faulty]

theorem encode_of_assemble {source body : List Char} {base w : Word} {words : List Word} {i : Nat}
    (assembled : assemble source base = .ok words)
    (written : (bodies (lines source))[i]? = some body) (word : words[i]? = some w) :
    encode (Placement.ofLines base (lines source)).labels (base + Word.ofIndex i) body = .ok w := by
  have here := congrArg (·[i]?) (assemble_eq_ok_iff.mp assembled).2
  simpa only [encodings, List.getElem?_mapIdx, List.getElem?_map, written, word, Option.map_some,
    Option.some.injEq] using here

theorem length_of_assemble {source : List Char} {base : Word} {words : List Word}
    (assembled : assemble source base = .ok words) :
    (bodies (lines source)).length = words.length := by
  have same := congrArg List.length (assemble_eq_ok_iff.mp assembled).2
  rwa [encodings, List.length_mapIdx, List.length_map] at same

/-- The fault of an instruction is reported with the number of its line. -/
theorem assemble_of_fault {source : List Char} {base : Word} {front back : List Line}
    {line : Line} (cut : lines source = front ++ line :: back) (something : line.body ≠ [])
    {fault : Fault} (rejected : encode (Placement.ofLines base (lines source)).labels
      (base + Word.ofIndex (bodies front).length) line.body = .error fault) :
    ∃ diagnostics, assemble source base = .error diagnostics ∧
      ⟨front.length + 1, fault⟩ ∈ diagnostics := by
  have placed := (Placement.mem_placed_iff base (lines source)
    (Placement.behind base front line)).mpr ⟨front, line, back, cut, rfl⟩
  have encoded : (Placement.behind base front line).encoded?
      (Placement.ofLines base (lines source)).labels = some (.error fault) :=
    (if_neg something).trans (congrArg some rejected)
  have reported : ⟨front.length + 1, fault⟩ ∈
      (Placement.ofLines base (lines source)).diagnostics := by
    refine List.mem_flatMap.mpr ⟨_, placed, List.mem_map.mpr ⟨fault, ?_, rfl⟩⟩
    rw [encoded]
    exact Placed.mem_faults_of_encoded? _ fault
  refine ⟨_, ?_, reported⟩
  rw [assemble_eq, if_neg (List.ne_nil_of_mem reported)]

end MipsPipeline.Assembly
