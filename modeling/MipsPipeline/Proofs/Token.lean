import Mathlib.Data.List.Induction
import Mathlib.Data.List.TakeWhile
import MipsPipeline.Assembly.Line

/-
Cutting a text, joined again. A separator between two texts keeps their tokens apart, a text without
separators is one token, and blanks at the ends of a text make no difference to its tokens.
-/
namespace MipsPipeline.Text

variable {isSeparator : Char → Bool}

theorem pieces_cons (c : Char) (text : List Char) :
    pieces isSeparator (c :: text) = pieceStep isSeparator c (pieces isSeparator text) := rfl

theorem fields_cons (c : Char) (text : List Char) :
    fields isSeparator (c :: text) = pieceStep isSeparator c (fields isSeparator text) := rfl

theorem pieceStep_of_separator {c : Char} (separator : isSeparator c) (parts : List (List Char)) :
    pieceStep isSeparator c parts = [] :: parts := if_pos separator

theorem pieceStep_cons {c : Char} (inside : ¬ isSeparator c) (part : List Char)
    (parts : List (List Char)) :
    pieceStep isSeparator c (part :: parts) = (c :: part) :: parts := if_neg inside

theorem fields_ne_nil (text : List Char) : fields isSeparator text ≠ [] := by
  cases text with
  | nil => exact List.cons_ne_nil [] []
  | cons c rest =>
    rw [fields_cons]
    unfold pieceStep
    split
    · exact List.cons_ne_nil _ _
    · split <;> exact List.cons_ne_nil _ _

/-- A separator ends the last field of the text in front of it. -/
theorem pieces_append_separator (front : List Char) {c : Char} (separator : isSeparator c)
    (back : List Char) :
    pieces isSeparator (front ++ c :: back) =
      fields isSeparator front ++ pieces isSeparator back := by
  induction front with
  | nil => exact pieceStep_of_separator separator _
  | cons d rest ih =>
    rw [List.cons_append, pieces_cons, ih, fields_cons]
    by_cases separator' : isSeparator d
    · rw [pieceStep_of_separator separator', pieceStep_of_separator separator', List.cons_append]
    · obtain ⟨field, others, fields⟩ := List.exists_cons_of_ne_nil (fields_ne_nil rest)
      rw [fields, List.cons_append, pieceStep_cons separator', pieceStep_cons separator',
        List.cons_append]

-- The two differ when the text ends in a separator.
theorem fields_eq_pieces (text : List Char) :
    fields isSeparator text = pieces isSeparator text ∨
      fields isSeparator text = pieces isSeparator text ++ [[]] := by
  induction text with
  | nil => exact .inr rfl
  | cons c rest ih =>
    rw [fields_cons, pieces_cons]
    by_cases separator : isSeparator c
    · simpa only [pieceStep_of_separator separator, List.cons_append, List.cons.injEq, true_and]
        using ih
    · cases pieces : pieces isSeparator rest with
      | nil =>
        have alone : fields isSeparator rest = [[]] := by
          rw [pieces] at ih
          exact ih.resolve_left (fields_ne_nil rest)
        exact .inl (by simp only [alone, pieceStep, separator, Bool.false_eq_true, ↓reduceIte])
      | cons piece others =>
        rw [pieces] at ih
        rcases ih with same | more
        · exact .inl (by rw [same])
        · exact .inr (by simp only [more, List.cons_append, pieceStep_cons separator])

theorem filter_fields (text : List Char) :
    (fields isSeparator text).filter (· ≠ []) = tokens isSeparator text := by
  rcases fields_eq_pieces text with same | more
  · rw [same, tokens]
  · rw [more, List.filter_append, tokens]
    exact List.append_nil _

theorem tokens_append_separator (front : List Char) {c : Char} (separator : isSeparator c)
    (back : List Char) :
    tokens isSeparator (front ++ c :: back) =
      tokens isSeparator front ++ tokens isSeparator back := by
  rw [tokens, pieces_append_separator front separator, List.filter_append, filter_fields]
  rfl

theorem tokens_cons_separator {c : Char} (separator : isSeparator c) (text : List Char) :
    tokens isSeparator (c :: text) = tokens isSeparator text :=
  tokens_append_separator [] separator text

theorem fields_of_solid {text : List Char} (solid : ∀ c ∈ text, ¬ isSeparator c) :
    fields isSeparator text = [text] := by
  induction text with
  | nil => rfl
  | cons c rest ih =>
    rw [fields_cons, ih fun d member => solid d (List.mem_cons_of_mem c member),
      pieceStep_cons (solid c List.mem_cons_self)]

theorem tokens_of_solid {text : List Char} (something : text ≠ [])
    (solid : ∀ c ∈ text, ¬ isSeparator c) : tokens isSeparator text = [text] := by
  rw [← filter_fields, fields_of_solid solid]
  exact List.filter_cons_of_pos (decide_eq_true something)

theorem pieces_of_solid {text : List Char} (something : text ≠ [])
    (solid : ∀ c ∈ text, ¬ isSeparator c) : pieces isSeparator text = [text] := by
  have either : fields isSeparator text = pieces isSeparator text ∨
      fields isSeparator text = pieces isSeparator text ++ [[]] := fields_eq_pieces text
  rw [fields_of_solid solid] at either
  rcases either with same | more
  · exact same.symm
  · have last := congrArg List.getLast? more
    rw [List.getLast?_singleton, List.getLast?_concat, Option.some.injEq] at last
    exact absurd last something

section Trim

variable {p : Char → Bool} (separators : ∀ c, p c → isSeparator c)

include separators

theorem tokens_dropWhile (text : List Char) :
    tokens isSeparator (text.dropWhile p) = tokens isSeparator text := by
  induction text with
  | nil => rfl
  | cons c rest ih =>
    by_cases dropped : p c
    · rw [List.dropWhile_cons_of_pos dropped, tokens_cons_separator (separators c dropped), ih]
    · rw [List.dropWhile_cons_of_neg dropped]

theorem tokens_reverse_dropWhile (text : List Char) :
    tokens isSeparator (text.reverse.dropWhile p).reverse = tokens isSeparator text := by
  induction text using List.reverseRecOn with
  | nil => rfl
  | append_singleton front c ih =>
    rw [List.reverse_append, List.reverse_singleton, List.singleton_append]
    by_cases dropped : p c
    · rw [List.dropWhile_cons_of_pos dropped, ih,
        tokens_append_separator front (separators c dropped)]
      exact (List.append_nil _).symm
    · rw [List.dropWhile_cons_of_neg dropped, List.reverse_cons, List.reverse_reverse]

end Trim

theorem tokens_trim (separators : ∀ c, isBlank c → isSeparator c) (text : List Char) :
    tokens isSeparator (trim text) = tokens isSeparator text := by
  rw [trim, tokens_reverse_dropWhile separators, tokens_dropWhile separators]

theorem mem_dropWhile_of_not {p : Char → Bool} {text : List Char} {c : Char} (member : c ∈ text)
    (kept : ¬ p c) : c ∈ text.dropWhile p := by
  rw [← List.takeWhile_append_dropWhile (p := p) (l := text)] at member
  exact (List.mem_append.mp member).resolve_left fun dropped =>
    kept (List.mem_takeWhile_imp dropped)

theorem mem_trim {text : List Char} {c : Char} (member : c ∈ text) (visible : ¬ isBlank c) :
    c ∈ trim text := by
  have kept := mem_dropWhile_of_not member visible
  exact List.mem_reverse.mpr (mem_dropWhile_of_not (List.mem_reverse.mpr kept) visible)

theorem trim_of_solid {text : List Char} (solid : ∀ c ∈ text, ¬ isBlank c) : trim text = text := by
  have kept {cs : List Char} (solid : ∀ c ∈ cs, ¬ isBlank c) : cs.dropWhile isBlank = cs := by
    cases cs with
    | nil => rfl
    | cons c rest => exact List.dropWhile_cons_of_neg (solid c List.mem_cons_self)
  rw [trim, kept solid, kept fun c member => solid c (List.mem_reverse.mp member),
    List.reverse_reverse]

/-- Texts that hold something and no line end are the lines of the text they are joined to. -/
theorem lines_intercalate {texts : List (List Char)} (something : ∀ text ∈ texts, text ≠ [])
    (unbroken : ∀ text ∈ texts, '\n' ∉ text) : lines (['\n'].intercalate texts) = texts := by
  induction texts with
  | nil => rfl
  | cons text rest ih =>
    have solid : ∀ c ∈ text, ¬ decide (c = '\n') := by
      intro c member
      rw [decide_eq_true_eq]
      rintro rfl
      exact unbroken text List.mem_cons_self member
    cases rest with
    | nil =>
      rw [List.intercalate_singleton]
      exact pieces_of_solid (something text List.mem_cons_self) solid
    | cons next others =>
      have tail := ih (fun t member => something t (List.mem_cons_of_mem text member))
        (fun t member => unbroken t (List.mem_cons_of_mem text member))
      rw [List.intercalate_cons_cons, List.append_assoc, List.singleton_append, lines,
        pieces_append_separator text (by rfl), fields_of_solid solid]
      exact congrArg (text :: ·) tail

theorem before_of_not_mem {c : Char} {text : List Char} (missing : c ∉ text) :
    before c text = text := by
  refine List.takeWhile_eq_self_iff.mpr fun d member => decide_eq_true ?_
  rintro rfl
  exact missing member

end MipsPipeline.Text
