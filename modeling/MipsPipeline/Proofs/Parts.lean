import MipsPipeline.Assembly.Program
import MipsPipeline.Proofs.Token

/-
The parts of a line, read from the left. What stands in front of the first colon is a label, or
spoils the rest of the line; a text without a colon is all instruction. A line is cut at all its
colons at once, which gives the same parts.
-/
namespace MipsPipeline

namespace Text

variable {isSeparator : Char → Bool}

theorem fields_append_separator {front : List Char} (solid : ∀ c ∈ front, ¬ isSeparator c)
    {c : Char} (separator : isSeparator c) (back : List Char) :
    fields isSeparator (front ++ c :: back) = front :: fields isSeparator back := by
  induction front with
  | nil => exact pieceStep_of_separator separator _
  | cons d rest ih =>
    have inside := solid d List.mem_cons_self
    have tail := ih fun e member => solid e (List.mem_cons_of_mem d member)
    rw [List.cons_append, fields_cons, tail, pieceStep_cons inside]

theorem not_mem_of_cut? {c : Char} {text front back : List Char}
    (h : cut? c text = some (front, back)) : c ∉ front := by
  unfold cut? at h
  split at h
  · contradiction
  · obtain ⟨rfl, -⟩ := Prod.mk.inj (Option.some.inj h)
    intro member
    have other := List.mem_takeWhile_imp member
    simp at other

theorem not_mem_of_cut?_eq_none {c : Char} {text : List Char} (h : cut? c text = none) :
    c ∉ text := by
  unfold cut? at h
  split at h
  · rename_i nothing
    intro member
    exact of_decide_eq_true (List.dropWhile_eq_nil_iff.mp nothing c member) rfl
  · contradiction

theorem cut?_append {c : Char} {front : List Char} (first : c ∉ front) (back : List Char) :
    cut? c (front ++ c :: back) = some (front, back) := by
  have before : ∀ d ∈ front, decide (d ≠ c) := by
    intro d member
    rw [decide_eq_true_eq]
    rintro rfl
    exact first member
  rw [cut?, List.dropWhile_append_of_pos before, List.takeWhile_append_of_pos before]
  simp

theorem cut?_of_not_mem {c : Char} {text : List Char} (missing : c ∉ text) :
    cut? c text = none := by
  cases cut : cut? c text with
  | none => rfl
  | some pair =>
    have whole := eq_of_cut? cut
    rw [whole] at missing
    simp at missing

theorem length_of_cut? {c : Char} {text front back : List Char}
    (cut : cut? c text = some (front, back)) : back.length < text.length := by
  rw [eq_of_cut? cut, List.length_append, List.length_cons]
  omega

end Text

namespace Assembly

/-- How the text of a line without its comment falls into parts. -/
inductive Parts : List Char → Line → Prop where
  | instruction {text : List Char} (plain : ':' ∉ text) : Parts text ⟨[], none, Text.trim text⟩
  | label {front back : List Char} {line : Line} (first : ':' ∉ front)
      (good : isLabel (Text.trim front)) (rest : Parts back line) :
      Parts (front ++ ':' :: back) { line with labels := Text.trim front :: line.labels }
  | spoilt {front back : List Char} (first : ':' ∉ front)
      (bad : ¬ isLabel (Text.trim front)) :
      Parts (front ++ ':' :: back) ⟨[], some (Text.trim front), []⟩

/-- The line whose trimmed texts between the colons these are. -/
def Line.ofFields (fields : List (List Char)) : Line :=
  match fields.dropLast.dropWhile isLabel with
  | [] => ⟨fields.dropLast.takeWhile isLabel, none, fields.getLastD []⟩
  | bad :: _ => ⟨fields.dropLast.takeWhile isLabel, some bad, []⟩

def Line.ofCode (code : List Char) : Line :=
  .ofFields ((Text.fields (· = ':') code).map Text.trim)

namespace Line

theorem ofText_eq_ofCode (text : List Char) : ofText text = ofCode (Text.before '#' text) := rfl

variable {field : List Char} {fields : List (List Char)}

theorem ofFields_cons_label (good : isLabel field) (more : fields ≠ []) :
    ofFields (field :: fields) =
      { ofFields fields with labels := field :: (ofFields fields).labels } := by
  have last : (field :: fields).getLastD [] = fields.getLastD [] := by
    cases fields with
    | nil => contradiction
    | cons next others => rfl
  simp only [ofFields, List.dropLast_cons_of_ne_nil more, List.dropWhile_cons_of_pos good,
    List.takeWhile_cons_of_pos good, last]
  split <;> rfl

theorem ofFields_cons_bad (bad : ¬ isLabel field) (more : fields ≠ []) :
    ofFields (field :: fields) = ⟨[], some field, []⟩ := by
  simp only [ofFields, List.dropLast_cons_of_ne_nil more, List.dropWhile_cons_of_neg bad,
    List.takeWhile_cons_of_neg bad]

end Line

section Colon

variable {front back : List Char} (first : ':' ∉ front)

include first

theorem fields_colon : Text.fields (· = ':') (front ++ ':' :: back) =
    front :: Text.fields (· = ':') back := by
  apply Text.fields_append_separator
  · intro c member separator
    exact first (of_decide_eq_true separator ▸ member)
  · rfl

theorem Line.ofCode_label (good : isLabel (Text.trim front)) :
    ofCode (front ++ ':' :: back) =
      { ofCode back with labels := Text.trim front :: (ofCode back).labels } := by
  rw [ofCode, fields_colon first, List.map_cons]
  exact ofFields_cons_label good (mt List.map_eq_nil_iff.mp (Text.fields_ne_nil back))

theorem Line.ofCode_spoilt (bad : ¬ isLabel (Text.trim front)) :
    ofCode (front ++ ':' :: back) = ⟨[], some (Text.trim front), []⟩ := by
  rw [ofCode, fields_colon first, List.map_cons]
  exact ofFields_cons_bad bad (mt List.map_eq_nil_iff.mp (Text.fields_ne_nil back))

end Colon

theorem Line.ofCode_plain {code : List Char} (plain : ':' ∉ code) :
    ofCode code = ⟨[], none, Text.trim code⟩ := by
  have solid : ∀ c ∈ code, ¬ decide (c = ':') := by
    intro c member separator
    exact plain (of_decide_eq_true separator ▸ member)
  rw [ofCode, Text.fields_of_solid solid]
  rfl

theorem parts_ofCode (code : List Char) : Parts code (.ofCode code) := by
  -- What stands behind a colon is no tail that the text was built from, but it is shorter.
  induction h : code.length using Nat.strongRecOn generalizing code with
  | ind n ih =>
    cases cut : Text.cut? ':' code with
    | none =>
      have plain := Text.not_mem_of_cut?_eq_none cut
      rw [Line.ofCode_plain plain]
      exact .instruction plain
    | some pair =>
      obtain ⟨front, back⟩ := pair
      have first := Text.not_mem_of_cut? cut
      have shorter : back.length < n := h ▸ Text.length_of_cut? cut
      obtain rfl := Text.eq_of_cut? cut
      by_cases good : isLabel (Text.trim front)
      · rw [Line.ofCode_label first good]
        exact .label first good (ih _ shorter back rfl)
      · rw [Line.ofCode_spoilt first good]
        exact .spoilt first good

/-- A line has just these parts. -/
theorem parts_iff {text : List Char} {line : Line} :
    Parts (Text.before '#' text) line ↔ Line.ofText text = line := by
  rw [Line.ofText_eq_ofCode]
  generalize Text.before '#' text = code
  constructor
  · intro parts
    induction parts with
    | instruction plain => exact Line.ofCode_plain plain
    | label first good rest ih => rw [Line.ofCode_label first good, ih]
    | spoilt first bad => exact Line.ofCode_spoilt first bad
  · rintro rfl
    exact parts_ofCode _

theorem Line.ofText_of_unlabelled {text : List Char} (colon : ':' ∉ Text.before '#' text) :
    Line.ofText text = ⟨[], none, Text.trim (Text.before '#' text)⟩ :=
  parts_iff.mp (.instruction colon)

/-- A text without comment and colon is all instruction. -/
theorem Line.ofText_of_plain {text : List Char} (comment : '#' ∉ text) (colon : ':' ∉ text) :
    Line.ofText text = ⟨[], none, Text.trim text⟩ := by
  have whole : Text.before '#' text = text := Text.before_of_not_mem comment
  rw [Line.ofText_of_unlabelled (by rwa [whole]), whole]

end Assembly

end MipsPipeline
