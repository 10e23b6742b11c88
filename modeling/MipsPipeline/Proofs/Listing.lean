import MipsPipeline.Program.Listing
import MipsPipeline.Proofs.Fallible
import MipsPipeline.Proofs.Printing

/-
Hex listings. What a code line may say for a word is given without the reader; the reader finds
just that, line by line, and a listing that is printed reads back as the words that it was printed
from.
-/
namespace MipsPipeline.Listing

open Text (Numeral)

/-- A word as a code line says it: one to eight hexadecimal digits with or without the mark. -/
inductive Writes : List Char → Word → Prop where
  | word {mark digits : List Char} {n : Nat}
      (marked : mark = [] ∨ mark = ['0', 'x'] ∨ mark = ['0', 'X'])
      (numeral : Numeral 16 digits n) (short : digits.length ≤ 8) :
      Writes (mark ++ digits) (BitVec.ofNat 32 n)

theorem exists_mark (text : List Char) :
    ∃ mark, (mark = [] ∨ mark = ['0', 'x'] ∨ mark = ['0', 'X']) ∧
      text = mark ++ (Text.hexMark? text).getD text := by
  cases marked : Text.hexMark? text with
  | none => exact ⟨[], .inl rfl, rfl⟩
  | some digits =>
    rcases Text.eq_of_hexMark? marked with lower | upper
    · exact ⟨['0', 'x'], .inr (.inl rfl), lower⟩
    · exact ⟨['0', 'X'], .inr (.inr rfl), upper⟩

theorem word?_eq_some_iff {text : List Char} {w : Word} : word? text = some w ↔ Writes text w := by
  constructor
  · intro read
    simp only [word?, Option.ite_none_right_eq_some, Option.map_eq_some_iff,
      Text.digits?_eq_some_iff] at read
    obtain ⟨short, n, numeral, rfl⟩ := read
    obtain ⟨mark, marked, cut⟩ := exists_mark text
    rw [cut]
    exact .word marked numeral short
  · rintro ⟨marked, numeral, short⟩
    have read := congrArg (·.map (BitVec.ofNat 32)) (Text.digits?_eq_some_iff.mpr numeral)
    rcases marked with rfl | rfl | rfl
    -- Where there is no mark none is taken off: an x is no digit.
    · have bare : Text.hexMark? _ = none := Text.hexMark?_of_numeral numeral rfl rfl
      rw [List.nil_append, word?, bare]
      exact (if_pos short).trans read
    · exact (if_pos short).trans read
    · exact (if_pos short).trans read

theorem Writes.solid {text : List Char} {w : Word} (writes : Writes text w) :
    Assembly.Solid text := by
  obtain ⟨marked, numeral, -⟩ := writes
  rcases marked with rfl | marked
  · exact Assembly.solid_of_numeral numeral
  · exact (Assembly.Magnitude.hexadecimal marked numeral).solid

theorem parse_eq_ok_iff {text : List Char} {words : List Word} :
    parse text = .ok words ↔
      List.Forall₂ (fun line w => Writes line.1 w) (codeLines text) words := by
  rw [parse, mapM_eq_ok_iff]
  constructor
  · refine List.Forall₂.imp fun ⟨line, number⟩ w read => word?_eq_some_iff.mp ?_
    dsimp only at read
    split at read
    · rename_i v word
      rw [word, Except.ok.inj read]
    · contradiction
  · refine List.Forall₂.imp fun ⟨line, number⟩ w writes => ?_
    dsimp only
    rw [word?_eq_some_iff.mpr writes]

/-- A text looks like a listing just if it is one that holds a word. -/
theorem looksLike_iff {text : List Char} :
    LooksLike text ↔ ∃ words, parse text = .ok words ∧ words ≠ [] := by
  constructor
  · rintro ⟨something, all_words⟩
    have read : ∃ words, parse text = .ok words := by
      refine exists_mapM_eq_ok fun line member => ?_
      obtain ⟨w, word⟩ := Option.isSome_iff_exists.mp (all_words line member)
      exact ⟨w, by simp [word]⟩
    obtain ⟨words, read⟩ := read
    refine ⟨words, read, ?_⟩
    rintro rfl
    exact something (List.forall₂_nil_right_iff.mp (parse_eq_ok_iff.mp read))
  · rintro ⟨words, read, something⟩
    have lines := parse_eq_ok_iff.mp read
    constructor
    · intro nothing
      rw [nothing, List.forall₂_nil_left_iff] at lines
      exact something lines
    · intro line member
      obtain ⟨i, inside, rfl⟩ := List.getElem_of_mem member
      have writes := lines.get inside (lines.length_eq ▸ inside)
      exact Option.isSome_of_eq_some (word?_eq_some_iff.mpr writes)

theorem exists_line_of_mem_codeLines {text : List Char} {line : List Char × Nat}
    (member : line ∈ codeLines text) :
    line.1 ≠ [] ∧ ∃ written ∈ Text.lines text, line.1 = code written := by
  obtain ⟨numbered, something⟩ := List.mem_filter.mp member
  obtain ⟨written, listed, same⟩ := List.mem_map.mp (List.fst_mem_of_mem_zipIdx numbered)
  exact ⟨of_decide_eq_true something, written, listed, same.symm⟩

section Print

theorem writes_printWord (w : Word) : Writes (printWord w).toList w := by
  have length := Text.length_upperHexDigits (by decide : 0 < 8)
    (show w.toNat < Nat.pow 16 8 from w.isLt)
  have writes := Writes.word (.inr (.inl rfl)) (Text.numeral_upperHexDigits 8 w.toNat)
    (Nat.le_of_eq length)
  rw [BitVec.ofNat_toNat, BitVec.setWidth_eq] at writes
  rwa [printWord, Text.upperHex, String.toList_ofList]

theorem toList_print (words : List Word) :
    (print words).toList = words.flatMap fun w => (printWord w).toList ++ ['\n'] := by
  have step (out : String) : (words.foldl (fun out w => out ++ printWord w ++ "\n") out).toList =
      out.toList ++ words.flatMap fun w => (printWord w).toList ++ ['\n'] := by
    induction words generalizing out with
    | nil => simp
    | cons w rest ih => simp [ih]
  rw [print, step]
  rfl

theorem lines_print (words : List Word) :
    Text.lines (print words).toList = words.map fun w => (printWord w).toList := by
  rw [toList_print]
  induction words with
  | nil => rfl
  | cons w rest ih =>
    have solid : ∀ c ∈ (printWord w).toList, ¬ decide (c = '\n') := by
      intro c member
      rw [decide_eq_true_eq]
      rintro rfl
      exact absurd ((writes_printWord w).solid.isWordChar '\n' member) (by decide)
    rw [List.flatMap_cons, List.append_assoc, List.singleton_append, Text.lines,
      Text.pieces_append_separator _ (by rfl), Text.fields_of_solid solid]
    exact congrArg ((printWord w).toList :: ·) ih

theorem code_printWord (w : Word) : code (printWord w).toList = (printWord w).toList := by
  have solid := (writes_printWord w).solid
  have comment : '#' ∉ (printWord w).toList := fun member =>
    absurd (solid.isWordChar '#' member) (by decide)
  rw [code, Text.before_of_not_mem comment, Text.trim_of_solid fun c member =>
    Assembly.not_isBlank_of_isWordChar (solid.isWordChar c member)]

/-- Lines that write words are code lines, all of them. -/
theorem writes_numbered {lines : List (List Char)} {words : List Word}
    (writes : List.Forall₂ Writes lines words) (number : Nat) :
    List.Forall₂ (fun line w => Writes line.1 w)
      ((lines.zipIdx number).filter (·.1 ≠ [])) words := by
  induction writes generalizing number with
  | nil => exact .nil
  | cons first rest ih =>
    rw [List.zipIdx_cons, List.filter_cons_of_pos]
    · exact .cons first (ih (number + 1))
    · exact decide_eq_true first.solid.1

theorem parse_print (words : List Word) : parse (print words).toList = .ok words := by
  have codes : (Text.lines (print words).toList).map code =
      words.map fun w => (printWord w).toList := by
    rw [lines_print, List.map_map]
    refine List.map_congr_left fun w _ => ?_
    rw [Function.comp_apply, code_printWord]
  have writes : List.Forall₂ Writes (words.map fun w => (printWord w).toList) words :=
    List.forall₂_map_left_iff.mpr (List.forall₂_same.mpr fun w _ => writes_printWord w)
  rw [parse_eq_ok_iff, codeLines, codes]
  exact writes_numbered writes 1

end Print

end MipsPipeline.Listing
