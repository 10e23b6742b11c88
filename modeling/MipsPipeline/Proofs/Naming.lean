import Mathlib.Data.List.Nodup
import MipsPipeline.Proofs.Numeral
import MipsPipeline.Proofs.Token
import MipsPipeline.Register.Name

/-
What is taken for a register. A dollar sign with one of the names or with a number below the count
of the registers is; so is a number with a plus sign in front of it, and nothing else.
-/
namespace MipsPipeline

namespace Text

theorem toNat_toLower_of_upper {c : Char} (upper : 65 ≤ c.toNat ∧ c.toNat ≤ 90) :
    c.toLower.toNat = c.toNat + 32 := by
  have each : ∀ n < 91, 65 ≤ n → (Char.ofNat n).toLower.toNat = n + 32 := by decide
  have here := each c.toNat (by omega) upper.1
  rwa [Char.ofNat_toNat] at here

theorem toLower_of_not_upper {c : Char} (other : ¬ (65 ≤ c.toNat ∧ c.toNat ≤ 90)) :
    c.toLower = c :=
  dif_neg other

/-- A character that is no letter is the lower case of itself alone. -/
theorem toLower_eq_iff {c d : Char} (plain : ¬ d.isAlpha) : c.toLower = d ↔ c = d := by
  rw [isAlpha_iff] at plain
  by_cases upper : 65 ≤ c.toNat ∧ c.toNat ≤ 90
  · have lower := toNat_toLower_of_upper upper
    constructor
    · rintro rfl
      omega
    · rintro rfl
      omega
  · rw [toLower_of_not_upper upper]

theorem digit?_of_isAlpha {c : Char} (letter : c.isAlpha) : digit? 10 c = none := by
  cases digit : digit? 10 c with
  | none => rfl
  | some d =>
    have range := isDigit_iff.mp (isDigit_of_digit? (Option.isSome_of_eq_some digit))
    rw [isAlpha_iff] at letter
    omega

/-- Letters are no decimal digits, whatever their case. -/
theorem digit?_toLower (c : Char) : digit? 10 c.toLower = digit? 10 c := by
  by_cases upper : 65 ≤ c.toNat ∧ c.toNat ≤ 90
  · have lower := toNat_toLower_of_upper upper
    rw [digit?_of_isAlpha (isAlpha_iff.mpr (.inl upper)),
      digit?_of_isAlpha (isAlpha_iff.mpr (.inr (by omega)))]
  · rw [toLower_of_not_upper upper]

theorem digits?_map_toLower (text : List Char) :
    digits? 10 (text.map Char.toLower) = digits? 10 text := by
  by_cases nothing : text = []
  · rw [nothing, List.map_nil]
  · have read : digit? 10 ∘ Char.toLower = digit? 10 := funext digit?_toLower
    rw [digits?_eq_mapM nothing, digits?_eq_mapM (mt List.map_eq_nil_iff.mp nothing),
      List.mapM_map, read]

theorem numeral?_of_unsigned {radix limit : Nat} {text : List Char}
    (bare : ∀ digits, text ≠ '+' :: digits) :
    numeral? radix limit text = (digits? radix text).filter (· < limit) := by
  unfold numeral?
  split
  · exact absurd rfl (bare _)
  · rfl

theorem numeral?_map_toLower (limit : Nat) (text : List Char) :
    numeral? 10 limit (text.map Char.toLower) = numeral? 10 limit text := by
  by_cases bare : ∀ digits, text ≠ '+' :: digits
  · have bare' : ∀ digits, text.map Char.toLower ≠ '+' :: digits := by
      intro digits same
      obtain ⟨c, rest, rfl, sign, -⟩ := List.map_eq_cons_iff.mp same
      exact bare rest (by rw [(toLower_eq_iff (by decide)).mp sign])
    rw [numeral?_of_unsigned bare, numeral?_of_unsigned bare', digits?_map_toLower]
  · obtain ⟨digits, signed⟩ := not_forall_not.mp bare
    rw [signed]
    exact congrArg (Option.filter (· < limit)) (digits?_map_toLower digits)

/-- The reader of counts takes digits with or without a plus sign. -/
theorem count?_eq_some_iff {text : List Char} {n : Nat} : count? text = some n ↔
    (Numeral 10 text n ∨ ∃ digits, text = '+' :: digits ∧ Numeral 10 digits n) ∧
      n < counterLimit := by
  have read {digits : List Char} : (digits? 10 digits).filter (· < counterLimit) = some n ↔
      Numeral 10 digits n ∧ n < counterLimit := by
    rw [Option.filter_eq_some_iff, digits?_eq_some_iff, decide_eq_true_eq]
  by_cases bare : ∀ digits, text ≠ '+' :: digits
  · rw [count?, numeral?_of_unsigned bare, read]
    simp [bare]
  · obtain ⟨digits, rfl⟩ := not_forall_not.mp bare
    have unsigned : ¬ Numeral 10 ('+' :: digits) n := by
      intro numeral
      exact absurd (numeral.isSome_digit? '+' List.mem_cons_self) (by decide)
    have stripped : count? ('+' :: digits) = (digits? 10 digits).filter (· < counterLimit) := rfl
    rw [stripped, read]
    simp [unsigned]

end Text

namespace Register

/-- A register as it is documented: a dollar sign with a name in any case or with a number. -/
inductive Names : List Char → Nat → Prop where
  | name {body : List Char} {i : Nat} {name : String} (known : names[i]? = some name)
      (same : body.map Char.toLower = name.toList) : Names ('$' :: body) i
  | secondName {body : List Char} (same : body.map Char.toLower = "s8".toList) :
      Names ('$' :: body) 30
  | number {digits : List Char} {i : Nat} (numeral : Text.Numeral 10 digits i)
      (small : i < count) : Names ('$' :: digits) i

/-- The number of a register with a plus sign in front. -/
inductive NamesSigned : List Char → Nat → Prop where
  | number {digits : List Char} {i : Nat} (numeral : Text.Numeral 10 digits i)
      (small : i < count) : NamesSigned ('$' :: '+' :: digits) i

section Body

variable {body : List Char} (solid : ∀ c ∈ '$' :: body, ¬ Text.isBlank c)

include solid

theorem index?_of_count? {n : Nat} (read : Text.count? body = some n) :
    index? ('$' :: body) = if n < count then some n else none := by
  have lower : ('$' :: body).map Char.toLower = '$' :: body.map Char.toLower := rfl
  have read_lower : Text.count? (body.map Char.toLower) = some n :=
    (Text.numeral?_map_toLower _ _).trans read
  simp only [index?, Text.trim_of_solid solid, lower, read_lower]

theorem index?_of_not_count? (unread : Text.count? body = none) :
    index? ('$' :: body) = if body.map Char.toLower = "s8".toList then some 30
      else names.findIdx? (·.toList = body.map Char.toLower) := by
  have lower : ('$' :: body).map Char.toLower = '$' :: body.map Char.toLower := rfl
  have unread_lower : Text.count? (body.map Char.toLower) = none :=
    (Text.numeral?_map_toLower _ _).trans unread
  simp only [index?, Text.trim_of_solid solid, lower, unread_lower]

end Body

theorem findIdx?_names_eq_some_iff {text : List Char} {i : Nat} :
    names.findIdx? (·.toList = text) = some i ↔
      ∃ name, names[i]? = some name ∧ text = name.toList := by
  have distinct : names.Nodup := by decide
  simp only [List.findIdx?_eq_some_iff_getElem, decide_eq_true_eq, List.getElem?_eq_some_iff]
  constructor
  · rintro ⟨inside, same, -⟩
    exact ⟨_, ⟨inside, rfl⟩, same.symm⟩
  · rintro ⟨name, ⟨inside, rfl⟩, rfl⟩
    refine ⟨inside, rfl, ?_⟩
    intro j before same
    have again := (List.Nodup.getElem_inj_iff distinct).mp (String.toList_inj.mp same)
    omega

theorem count?_of_name {text : List Char} {name : String} (known : name ∈ "s8" :: names)
    (same : text.map Char.toLower = name.toList) : Text.count? text = none := by
  have each : ∀ name ∈ "s8" :: names, Text.count? name.toList = none := by decide
  rw [Text.count?, ← Text.numeral?_map_toLower, same]
  exact each name known

theorem exists_dollar {operand : List Char} {i : Nat} (solid : ∀ c ∈ operand, ¬ Text.isBlank c)
    (found : index? operand = some i) : ∃ body, operand = '$' :: body := by
  rw [index?, Text.trim_of_solid solid] at found
  split at found
  · rename_i dollar
    obtain ⟨c, body, rfl, mark, -⟩ := List.map_eq_cons_iff.mp dollar
    exact ⟨body, by rw [(Text.toLower_eq_iff (by decide)).mp mark]⟩
  · contradiction

theorem names_of_index? {operand : List Char} (solid : ∀ c ∈ operand, ¬ Text.isBlank c) {i : Nat}
    (found : index? operand = some i) : Names operand i ∨ NamesSigned operand i := by
  obtain ⟨body, rfl⟩ := exists_dollar solid found
  -- The number is tried first: what reads as one is never looked up among the names.
  cases read : Text.count? body with
  | some n =>
    rw [index?_of_count? solid read] at found
    obtain ⟨small, same⟩ := Option.ite_none_right_eq_some.mp found
    obtain rfl := Option.some.inj same
    obtain ⟨numeral | ⟨digits, rfl, numeral⟩, -⟩ := Text.count?_eq_some_iff.mp read
    · exact .inl (.number numeral small)
    · exact .inr (.number numeral small)
  | none =>
    rw [index?_of_not_count? solid read] at found
    split at found
    · rename_i second
      obtain rfl := Option.some.inj found
      exact .inl (.secondName second)
    · obtain ⟨name, known, same⟩ := findIdx?_names_eq_some_iff.mp found
      exact .inl (.name known same)

theorem index?_of_names {operand : List Char} (solid : ∀ c ∈ operand, ¬ Text.isBlank c) {i : Nat}
    (named : Names operand i ∨ NamesSigned operand i) : index? operand = some i := by
  have large : count < Text.counterLimit := by decide
  rcases named with documented | signed
  · cases documented with
    | @name body _ name known same =>
      have listed := List.mem_of_getElem? known
      have unread := count?_of_name (List.mem_cons_of_mem _ listed) same
      have first : body.map Char.toLower ≠ "s8".toList := by
        intro second
        have each : ∀ name ∈ names, name.toList ≠ "s8".toList := by decide
        exact each name listed (same.symm.trans second)
      rw [index?_of_not_count? solid unread, if_neg first]
      exact findIdx?_names_eq_some_iff.mpr ⟨name, known, same⟩
    | secondName same =>
      rw [index?_of_not_count? solid (count?_of_name List.mem_cons_self same), if_pos same]
    | number numeral small =>
      have read := Text.count?_eq_some_iff.mpr ⟨.inl numeral, by omega⟩
      rw [index?_of_count? solid read, if_pos small]
  · cases signed with
    | number numeral small =>
      have read := Text.count?_eq_some_iff.mpr ⟨.inr ⟨_, rfl, numeral⟩, by omega⟩
      rw [index?_of_count? solid read, if_pos small]

/-- What is taken for a register: what is documented, and a number with a plus sign. -/
theorem index?_eq_some_iff {operand : List Char} (solid : ∀ c ∈ operand, ¬ Text.isBlank c)
    {i : Nat} : index? operand = some i ↔ Names operand i ∨ NamesSigned operand i :=
  ⟨names_of_index? solid, index?_of_names solid⟩

theorem NamesSigned.not_names {operand : List Char} {i j : Nat} (signed : NamesSigned operand i) :
    ¬ Names operand j := by
  intro documented
  cases signed with
  | number =>
    cases documented with
    | name known same =>
      have each : ∀ name ∈ names, name.toList.head? ≠ some '+' := by decide
      exact each _ (List.mem_of_getElem? known) (congrArg List.head? same).symm
    | secondName same =>
      have plus := List.head_eq_of_cons_eq same
      contradiction
    | number numeral small =>
      exact absurd (numeral.isSome_digit? '+' List.mem_cons_self) (by decide)

end Register

end MipsPipeline
