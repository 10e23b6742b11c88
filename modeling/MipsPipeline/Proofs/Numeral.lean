import Mathlib.Data.List.Induction
import Mathlib.Data.Nat.Digits.Defs
import MipsPipeline.Assembly.Encode

/-
What a numeral says. The value of a text of digits is given digit by digit, the reader finds just
that value, and what the printers of numbers write is a numeral of the number.
-/
namespace MipsPipeline

namespace Text

theorem isDigit_iff {c : Char} : c.isDigit ↔ 48 ≤ c.toNat ∧ c.toNat ≤ 57 := by
  simp [Char.isDigit, UInt32.le_iff_toNat_le]

theorem isAlpha_iff {c : Char} :
    c.isAlpha ↔ (65 ≤ c.toNat ∧ c.toNat ≤ 90) ∨ (97 ≤ c.toNat ∧ c.toNat ≤ 122) := by
  have upper : c.isUpper = decide (65 ≤ c.val ∧ c.val ≤ 90) := rfl
  have lower : c.isLower = (decide (97 ≤ c.val) && decide (c.val ≤ 122)) := rfl
  have letter : c.isAlpha = (c.isUpper || c.isLower) := rfl
  simp [letter, upper, lower, UInt32.le_iff_toNat_le]

theorem isAlphanum_iff {c : Char} :
    c.isAlphanum ↔ (65 ≤ c.toNat ∧ c.toNat ≤ 90) ∨ (97 ≤ c.toNat ∧ c.toNat ≤ 122) ∨
      (48 ≤ c.toNat ∧ c.toNat ≤ 57) := by
  rw [Char.isAlphanum, Bool.or_eq_true, isAlpha_iff, isDigit_iff, or_assoc]

theorem isAlphanum_of_digit? {radix : Nat} {c : Char} (digit : (digit? radix c).isSome) :
    c.isAlphanum := by
  obtain ⟨d, digit⟩ := Option.isSome_iff_exists.mp digit
  obtain ⟨value, -⟩ := Option.filter_eq_some_iff.mp digit
  rw [isAlphanum_iff]
  unfold digitValue? at value
  split at value
  · rename_i range
    exact .inr (.inr range)
  · split at value
    · rename_i range
      exact .inr (.inl range)
    · split at value
      · rename_i range
        exact .inl range
      · contradiction

/-- A letter is worth ten at least. -/
theorem isDigit_of_digit? {c : Char} (digit : (digit? 10 c).isSome) : c.isDigit := by
  obtain ⟨d, digit⟩ := Option.isSome_iff_exists.mp digit
  obtain ⟨value, small⟩ := Option.filter_eq_some_iff.mp digit
  have small : d < 10 := of_decide_eq_true small
  rw [isDigit_iff]
  unfold digitValue? at value
  split at value
  · rename_i range
    exact range
  · split at value
    · have letter := Option.some.inj value
      omega
    · split at value
      · have letter := Option.some.inj value
        omega
      · contradiction

/-- A text of one or more digits has a value: a digit behind it counts once, what was there before
counts `radix` times. -/
inductive Numeral (radix : Nat) : List Char → Nat → Prop where
  | digit {c : Char} {d : Nat} (last : digit? radix c = some d) : Numeral radix [c] d
  | append {text : List Char} {n : Nat} {c : Char} {d : Nat} (front : Numeral radix text n)
      (last : digit? radix c = some d) : Numeral radix (text ++ [c]) (n * radix + d)

theorem Numeral.ne_nil {radix n : Nat} {text : List Char} (numeral : Numeral radix text n) :
    text ≠ [] := by
  cases numeral <;> simp

theorem Numeral.isSome_digit? {radix n : Nat} {text : List Char} (numeral : Numeral radix text n) :
    ∀ c ∈ text, (digit? radix c).isSome := by
  induction numeral with
  | digit last => simp [last]
  | append front last ih =>
    intro c member
    rcases List.mem_append.mp member with early | late
    · exact ih c early
    · rw [List.mem_singleton.mp late, last]
      rfl

theorem digits?_eq_mapM {radix : Nat} {text : List Char} (some_digit : text ≠ []) :
    digits? radix text = (text.mapM (digit? radix)).map (appendDigits radix 0) := by
  cases text with
  | nil => contradiction
  | cons c rest => simp only [digits?, ofDigits_eq_appendDigits]

theorem digits?_singleton (radix : Nat) (c : Char) : digits? radix [c] = digit? radix c := by
  rw [digits?_eq_mapM (List.cons_ne_nil c [])]
  cases digit : digit? radix c with
  | none => simp [digit]
  | some d => simp [digit, appendDigits]

theorem digits?_concat {radix : Nat} {text : List Char} (some_digit : text ≠ []) (c : Char) :
    digits? radix (text ++ [c]) =
      (digits? radix text).bind fun n => (digit? radix c).map (n * radix + ·) := by
  rw [digits?_eq_mapM (by simp), digits?_eq_mapM some_digit, List.mapM_append]
  cases front : text.mapM (digit? radix) with
  | none => rfl
  | some digits =>
    cases digit : digit? radix c with
    | none => simp [digit]
    | some d => simp [digit, appendDigits]

theorem digits?_eq_some_iff {radix : Nat} {text : List Char} {n : Nat} :
    digits? radix text = some n ↔ Numeral radix text n := by
  constructor
  · intro read
    induction text using List.reverseRecOn generalizing n with
    | nil => contradiction
    | append_singleton text c ih =>
      by_cases first : text = []
      · subst first
        exact .digit ((digits?_singleton radix c).symm.trans read)
      · rw [digits?_concat first] at read
        obtain ⟨front, readFront, last⟩ := Option.bind_eq_some_iff.mp read
        obtain ⟨d, digit, rfl⟩ := Option.map_eq_some_iff.mp last
        exact .append (ih readFront) digit
  · intro numeral
    induction numeral with
    | digit last => rw [digits?_singleton, last]
    | append front last ih =>
      rw [digits?_concat front.ne_nil, ih, last]
      rfl

/-- A text has one value at most. -/
theorem Numeral.unique {radix n m : Nat} {text : List Char} (numeral : Numeral radix text n)
    (numeral' : Numeral radix text m) : n = m :=
  Option.some.inj ((digits?_eq_some_iff.mpr numeral).symm.trans (digits?_eq_some_iff.mpr numeral'))

/-- Digits written by position are a numeral, in whatever characters the digits are written. -/
theorem numeral_toDigits {radix : Nat} (wide : 1 < radix) (character : Char → Char)
    (read : ∀ d < radix, digit? radix (character d.digitChar) = some d) (n : Nat) :
    Numeral radix ((Nat.toDigits radix n).map character) n := by
  induction n using Nat.strongRecOn with
  | ind n ih =>
    by_cases small : n < radix
    · rw [Nat.toDigits_of_lt_base small]
      exact .digit (read n small)
    · have large : radix ≤ n := Nat.le_of_not_lt small
      have shorter : n / radix < n := Nat.div_lt_self (by omega) wide
      have last := read (n % radix) (Nat.mod_lt n (by omega))
      rw [Nat.toDigits_of_base_le wide large, List.map_append]
      have numeral := (ih _ shorter).append last
      rwa [Nat.div_add_mod'] at numeral

theorem numeral_decimal (n : Nat) : Numeral 10 (Nat.toDigits 10 n) n := by
  have numeral := numeral_toDigits (by decide : 1 < 10) id (by decide) n
  rwa [List.map_id] at numeral

/-- A zero in front makes no difference. -/
theorem Numeral.cons_zero {radix n : Nat} {text : List Char} (positive : 0 < radix)
    (numeral : Numeral radix text n) : Numeral radix ('0' :: text) n := by
  have zero : digit? radix '0' = some 0 := by
    rw [digit?, Option.filter_eq_some_iff]
    exact ⟨rfl, decide_eq_true positive⟩
  induction numeral with
  | digit last =>
    have numeral := (Numeral.digit zero).append last
    rwa [Nat.zero_mul, Nat.zero_add] at numeral
  | append front last ih => exact ih.append last

theorem Numeral.leftpad_zero {radix n : Nat} {text : List Char} (positive : 0 < radix)
    (numeral : Numeral radix text n) (width : Nat) :
    Numeral radix (text.leftpad width '0') n := by
  rw [List.leftpad]
  induction width - text.length with
  | zero => exact numeral
  | succ zeros ih => exact ih.cons_zero positive

theorem numeral_upperHexDigits (width n : Nat) : Numeral 16 (upperHexDigits width n) n := by
  have unpadded := numeral_toDigits (by decide : 1 < 16) Char.toUpper (by decide) n
  have padded : upperHexDigits width n =
      ((Nat.toDigits 16 n).map Char.toUpper).leftpad width '0' := by
    simp [upperHexDigits, hexDigits, List.leftpad]
  rw [padded]
  exact unpadded.leftpad_zero (by decide) width

theorem length_upperHexDigits {width n : Nat} (positive : 0 < width)
    (small : n < Nat.pow 16 width) : (upperHexDigits width n).length = width := by
  have short := Nat.toDigits_length 16 n width positive small
  simp [upperHexDigits, hexDigits, List.leftpad]
  omega

theorem eq_of_hexMark? {text digits : List Char} (marked : hexMark? text = some digits) :
    text = ['0', 'x'] ++ digits ∨ text = ['0', 'X'] ++ digits := by
  unfold hexMark? at marked
  split at marked
  · exact .inl (Option.some.inj marked ▸ rfl)
  · exact .inr (Option.some.inj marked ▸ rfl)
  · contradiction

/-- The second character of the mark is no digit. -/
theorem hexMark?_of_numeral {radix n : Nat} {text : List Char} (numeral : Numeral radix text n)
    (lower : digit? radix 'x' = none) (upper : digit? radix 'X' = none) :
    hexMark? text = none := by
  cases marked : hexMark? text with
  | none => rfl
  | some digits =>
    rcases eq_of_hexMark? marked with rfl | rfl
    · exact absurd (numeral.isSome_digit? 'x' (by simp)) (by simp [lower])
    · exact absurd (numeral.isSome_digit? 'X' (by simp)) (by simp [upper])

end Text

namespace Assembly

open Text (Numeral hexMark? eq_of_hexMark? hexMark?_of_numeral)

/-- A decimal number, or a hexadecimal one behind the mark. -/
inductive Magnitude : List Char → Nat → Prop where
  | decimal {text : List Char} {n : Nat} (numeral : Numeral 10 text n) : Magnitude text n
  | hexadecimal {mark text : List Char} {n : Nat} (marked : mark = ['0', 'x'] ∨ mark = ['0', 'X'])
      (numeral : Numeral 16 text n) : Magnitude (mark ++ text) n

/-- An operand that writes an integer: a magnitude with at most one sign in front. -/
inductive Denotes : List Char → Int → Prop where
  | unsigned {text : List Char} {n : Nat} (magnitude : Magnitude text n) : Denotes text n
  | plus {text : List Char} {n : Nat} (magnitude : Magnitude text n) : Denotes ('+' :: text) n
  | minus {text : List Char} {n : Nat} (magnitude : Magnitude text n) : Denotes ('-' :: text) (-n)

def magnitude? (text : List Char) : Option Nat :=
  match hexMark? text with
  | some digits => Text.digits? 16 digits
  | none => Text.digits? 10 text

theorem magnitude?_eq_some_iff {text : List Char} {n : Nat} :
    magnitude? text = some n ↔ Magnitude text n := by
  constructor
  · intro read
    unfold magnitude? at read
    split at read
    · rename_i digits marked
      have numeral := Text.digits?_eq_some_iff.mp read
      rcases eq_of_hexMark? marked with rfl | rfl
      · exact .hexadecimal (.inl rfl) numeral
      · exact .hexadecimal (.inr rfl) numeral
    · exact .decimal (Text.digits?_eq_some_iff.mp read)
  · intro magnitude
    cases magnitude with
    | decimal numeral =>
      rw [magnitude?, hexMark?_of_numeral numeral rfl rfl]
      exact Text.digits?_eq_some_iff.mpr numeral
    | hexadecimal marked numeral =>
      rcases marked with rfl | rfl <;> exact Text.digits?_eq_some_iff.mpr numeral

theorem Magnitude.not_signed {text : List Char} {n : Nat} (magnitude : Magnitude text n)
    (rest : List Char) : text ≠ '-' :: rest ∧ text ≠ '+' :: rest := by
  cases magnitude with
  | decimal numeral =>
    constructor
    · rintro rfl
      exact absurd (numeral.isSome_digit? '-' List.mem_cons_self) (by decide)
    · rintro rfl
      exact absurd (numeral.isSome_digit? '+' List.mem_cons_self) (by decide)
  | hexadecimal marked numeral => rcases marked with rfl | rfl <;> simp

theorem Magnitude.unique {text : List Char} {n m : Nat} (magnitude : Magnitude text n)
    (magnitude' : Magnitude text m) : n = m :=
  Option.some.inj
    ((magnitude?_eq_some_iff.mpr magnitude).symm.trans (magnitude?_eq_some_iff.mpr magnitude'))

/-- An operand writes one integer at most. -/
theorem Denotes.unique {operand : List Char} {n m : Int} (denotes : Denotes operand n)
    (denotes' : Denotes operand m) : n = m := by
  cases denotes with
  | unsigned magnitude =>
    cases denotes' with
    | unsigned magnitude' => rw [magnitude.unique magnitude']
    | plus => exact absurd rfl (magnitude.not_signed _).2
    | minus => exact absurd rfl (magnitude.not_signed _).1
  | plus magnitude =>
    cases denotes' with
    | unsigned magnitude' => exact absurd rfl (magnitude'.not_signed _).2
    | plus magnitude' => rw [magnitude.unique magnitude']
  | minus magnitude =>
    cases denotes' with
    | unsigned magnitude' => exact absurd rfl (magnitude'.not_signed _).1
    | minus magnitude' => rw [magnitude.unique magnitude']

/-- The reader of integers stops where their magnitude no longer has 63 bits. -/
def readable? (text : List Char) : Option Nat :=
  (magnitude? text).filter (· < Text.counterLimit / 2)

theorem map_readable?_eq_some_iff {text : List Char} {signed : Nat → Int} {n : Int} :
    (readable? text).map signed = some n ↔
      ∃ m, Magnitude text m ∧ m < Text.counterLimit / 2 ∧ signed m = n := by
  simp only [readable?, Option.map_eq_some_iff, Option.filter_eq_some_iff,
    magnitude?_eq_some_iff, decide_eq_true_eq, and_assoc]

theorem integer?_minus (text : List Char) :
    integer? ('-' :: text) = (readable? text).map fun (m : Nat) => -(m : Int) := rfl

theorem integer?_plus (text : List Char) :
    integer? ('+' :: text) = (readable? text).map fun (m : Nat) => (m : Int) := rfl

theorem integer?_of_not_signed {text : List Char}
    (bare : ∀ rest, text ≠ '-' :: rest ∧ text ≠ '+' :: rest) :
    integer? text = (readable? text).map fun (m : Nat) => (m : Int) := by
  rw [integer?]
  · rfl
  · exact fun rest => (bare rest).1
  · exact fun rest => (bare rest).2

theorem integer?_eq_some_iff {operand : List Char} {n : Int} :
    integer? operand = some n ↔ Denotes operand n ∧ n.natAbs < Text.counterLimit / 2 := by
  constructor
  · intro read
    by_cases bare : ∀ rest, operand ≠ '-' :: rest ∧ operand ≠ '+' :: rest
    · rw [integer?_of_not_signed bare, map_readable?_eq_some_iff] at read
      obtain ⟨m, magnitude, small, rfl⟩ := read
      exact ⟨.unsigned magnitude, small⟩
    · obtain ⟨rest, signed⟩ := not_forall.mp bare
      rcases Decidable.or_iff_not_not_and_not.mpr signed with rfl | rfl
      · rw [integer?_minus, map_readable?_eq_some_iff] at read
        obtain ⟨m, magnitude, small, rfl⟩ := read
        exact ⟨.minus magnitude, by rwa [Int.natAbs_neg]⟩
      · rw [integer?_plus, map_readable?_eq_some_iff] at read
        obtain ⟨m, magnitude, small, rfl⟩ := read
        exact ⟨.plus magnitude, small⟩
  · rintro ⟨denotes, small⟩
    cases denotes with
    | unsigned magnitude =>
      rw [integer?_of_not_signed magnitude.not_signed, map_readable?_eq_some_iff]
      exact ⟨_, magnitude, small, rfl⟩
    | plus magnitude =>
      rw [integer?_plus, map_readable?_eq_some_iff]
      exact ⟨_, magnitude, small, rfl⟩
    | minus magnitude =>
      rw [integer?_minus, map_readable?_eq_some_iff]
      exact ⟨_, magnitude, by rwa [Int.natAbs_neg] at small, rfl⟩

theorem not_isLabelStart_of_isDigit {c : Char} (digit : c.isDigit) : ¬ isLabelStart c := by
  intro start
  rw [Text.isDigit_iff] at digit
  simp only [isLabelStart, Bool.or_eq_true, decide_eq_true_eq, Text.isAlpha_iff] at start
  rcases start with (letter | rfl) | rfl
  · omega
  · exact absurd digit (by decide)
  · exact absurd digit (by decide)

theorem Magnitude.not_isLabel {text : List Char} {n : Nat} (magnitude : Magnitude text n) :
    ¬ isLabel text := by
  cases magnitude with
  | decimal numeral =>
    cases text with
    | nil => simp [isLabel]
    | cons c rest =>
      have digit := Text.isDigit_of_digit? (numeral.isSome_digit? c List.mem_cons_self)
      simp [isLabel, not_isLabelStart_of_isDigit digit]
  | hexadecimal marked numeral =>
    rcases marked with rfl | rfl <;> simp [isLabel, not_isLabelStart_of_isDigit]

/-- A number begins with a sign or a digit, and a label does not. -/
theorem Denotes.not_isLabel {operand : List Char} {n : Int} (denotes : Denotes operand n) :
    ¬ isLabel operand := by
  cases denotes with
  | unsigned magnitude => exact magnitude.not_isLabel
  | plus magnitude => simp [isLabel, isLabelStart]
  | minus magnitude => simp [isLabel, isLabelStart]

end Assembly

end MipsPipeline
