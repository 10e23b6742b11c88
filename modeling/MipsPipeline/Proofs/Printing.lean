import MipsPipeline.Instruction.Assembly
import MipsPipeline.Proofs.Fields
import MipsPipeline.Proofs.Numeral
import MipsPipeline.Proofs.Parts

/-
What the disassembler writes. Mnemonics, registers and numbers are made of characters that nothing
takes for a separator, so the text of an instruction has just these for its tokens, and it is a
line without a label or a comment.
-/
namespace MipsPipeline

namespace Text

variable {isSeparator : Char → Bool}

theorem tokens_append_of_separators {separators : List Char}
    (all_separate : ∀ c ∈ separators, isSeparator c) (text : List Char) :
    tokens isSeparator (separators ++ text) = tokens isSeparator text := by
  induction separators with
  | nil => rfl
  | cons c rest ih =>
    rw [List.cons_append, tokens_cons_separator (all_separate c List.mem_cons_self)]
    exact ih fun d member => all_separate d (List.mem_cons_of_mem c member)

/-- Texts with separators between them have each their own tokens. -/
theorem tokens_intercalate {c : Char} {rest : List Char}
    (all_separate : ∀ d ∈ c :: rest, isSeparator d) (texts : List (List Char)) :
    tokens isSeparator ((c :: rest).intercalate texts) = texts.flatMap (tokens isSeparator) := by
  induction texts with
  | nil => rfl
  | cons text texts ih =>
    cases texts with
    | nil => rw [List.intercalate_singleton, List.flatMap_singleton]
    | cons next others =>
      rw [List.intercalate_cons_cons, List.append_assoc, List.cons_append,
        tokens_append_separator text (all_separate c List.mem_cons_self),
        tokens_append_of_separators fun d member => all_separate d (List.mem_cons_of_mem c member),
        ih]
      exact List.flatMap_cons.symm

theorem forall_mem_intercalate {p : Char → Prop} {separator : List Char}
    {texts : List (List Char)} (between : ∀ c ∈ separator, p c)
    (inside : ∀ text ∈ texts, ∀ c ∈ text, p c) : ∀ c ∈ separator.intercalate texts, p c := by
  induction texts with
  | nil =>
    intro c member
    contradiction
  | cons text texts ih =>
    have tail := ih fun t member => inside t (List.mem_cons_of_mem text member)
    cases texts with
    | nil =>
      rw [List.intercalate_singleton]
      exact inside text List.mem_cons_self
    | cons next others =>
      intro c member
      rw [List.intercalate_cons_cons] at member
      rcases List.mem_append.mp member with early | late
      · rcases List.mem_append.mp early with here | there
        · exact inside text List.mem_cons_self c here
        · exact between c there
      · exact tail c late

end Text

namespace Assembly

/-- The characters of mnemonics, registers and numbers. -/
def isWordChar (c : Char) : Bool := c.isAlphanum || c = '$' || c = '+' || c = '-'

/-- One or more of these characters. -/
def Solid (text : List Char) : Prop := text ≠ [] ∧ text.all isWordChar

instance (text : List Char) : Decidable (Solid text) := inferInstanceAs (Decidable (_ ∧ _ = true))

theorem Solid.isWordChar {text : List Char} (solid : Solid text) : ∀ c ∈ text, isWordChar c :=
  List.all_eq_true.mp solid.2

theorem isOperandSeparator_of_isBlank (c : Char) (blank : Text.isBlank c) :
    isOperandSeparator c := by
  simp [isOperandSeparator, blank]

theorem not_isBlank_of_isWordChar {c : Char} (inside : isWordChar c) : ¬ Text.isBlank c := by
  have code : c.toNat = 36 ∨ c.toNat = 43 ∨ c.toNat = 45 ∨ (65 ≤ c.toNat ∧ c.toNat ≤ 90) ∨
      (97 ≤ c.toNat ∧ c.toNat ≤ 122) ∨ (48 ≤ c.toNat ∧ c.toNat ≤ 57) := by
    simp only [isWordChar, Bool.or_eq_true, Text.isAlphanum_iff, decide_eq_true_eq] at inside
    rcases inside with ((range | rfl) | rfl) | rfl
    · omega
    all_goals decide
  simp only [Text.isBlank, Text.blankRanges, List.any_cons, List.any_nil, Bool.or_eq_true,
    Bool.and_eq_true, decide_eq_true_eq, Bool.false_eq_true, or_false]
  omega

theorem not_isOperandSeparator_of_isWordChar {c : Char} (inside : isWordChar c) :
    ¬ isOperandSeparator c := by
  have blank := not_isBlank_of_isWordChar inside
  simp only [isOperandSeparator, Bool.or_eq_true, decide_eq_true_eq]
  rintro (((rfl | rfl) | rfl) | impossible)
  · contradiction
  · contradiction
  · contradiction
  · exact blank impossible

theorem Solid.tokens {text : List Char} (solid : Solid text) :
    Text.tokens isOperandSeparator text = [text] :=
  Text.tokens_of_solid solid.1 fun c member =>
    not_isOperandSeparator_of_isWordChar (solid.isWordChar c member)

theorem solid_of_numeral {radix n : Nat} {text : List Char} (numeral : Text.Numeral radix text n) :
    Solid text := by
  refine ⟨numeral.ne_nil, List.all_eq_true.mpr fun c member => ?_⟩
  simp [isWordChar, Text.isAlphanum_of_digit? (numeral.isSome_digit? c member)]

theorem Magnitude.solid {text : List Char} {n : Nat} (magnitude : Magnitude text n) :
    Solid text := by
  cases magnitude with
  | decimal numeral => exact solid_of_numeral numeral
  | hexadecimal marked numeral =>
    rename_i mark text
    have mark_inside : mark.all isWordChar := by
      rcases marked with rfl | rfl <;> decide
    constructor
    · simp [numeral.ne_nil]
    · rw [List.all_append, mark_inside, (solid_of_numeral numeral).2]
      rfl

/-- A number has no separator in it. -/
theorem Denotes.solid {operand : List Char} {n : Int} (denotes : Denotes operand n) :
    Solid operand := by
  have signed {sign : Char} {text : List Char} {n : Nat} (inside : isWordChar sign)
      (magnitude : Magnitude text n) : Solid (sign :: text) := by
    refine ⟨List.cons_ne_nil sign text, ?_⟩
    rw [List.all_cons, inside, magnitude.solid.2]
    rfl
  cases denotes with
  | unsigned magnitude => exact magnitude.solid
  | plus magnitude => exact signed (by decide) magnitude
  | minus magnitude => exact signed (by decide) magnitude

theorem denotes_repr (n : Nat) : Denotes (toString n).toList n := by
  rw [Nat.toString_eq_ofList_toDigits, String.toList_ofList]
  exact .unsigned (.decimal (Text.numeral_decimal n))

theorem denotes_toString (n : Int) : Denotes (toString n).toList n := by
  rw [Int.toString_eq_repr, Int.repr_eq_if]
  split
  · rename_i natural
    have same : (n.toNat : Int) = n := Int.toNat_of_nonneg natural
    have written := denotes_repr n.toNat
    rwa [same] at written
  · rename_i negative
    have same : -((-n).toNat : Int) = n := by omega
    have written : Denotes ('-' :: (toString (-n).toNat).toList) (-((-n).toNat : Int)) := by
      rw [Nat.toString_eq_ofList_toDigits, String.toList_ofList]
      exact .minus (.decimal (Text.numeral_decimal (-n).toNat))
    rw [same] at written
    rwa [String.toList_append]

theorem denotes_upperHex (n : Nat) : Denotes (Text.upperHex 0 n).toList n := by
  rw [Text.upperHex, String.toList_ofList]
  exact .unsigned (.hexadecimal (.inl rfl) (Text.numeral_upperHexDigits 0 n))

end Assembly

namespace Register

theorem index?_name {r : Nat} (inside : r < count) : index? (name r).toList = some r := by
  have each : ∀ r < count, index? (name r).toList = some r := by decide +kernel
  exact each r inside

theorem solid_name {r : Nat} (inside : r < count) : Assembly.Solid (name r).toList := by
  have each : ∀ r < count, Assembly.Solid (name r).toList := by decide +kernel
  exact each r inside

end Register

namespace Op

theorem solid_mnemonic (op : Op) : Assembly.Solid op.mnemonic.toList := by
  cases op <;> decide

theorem mnemonic_lower (op : Op) : op.mnemonic.toList.map Char.toLower = op.mnemonic.toList := by
  cases op <;> decide

end Op

namespace Instruction

open Assembly (isWordChar isOperandSeparator)

/-- The characters of the text of an instruction. -/
def IsTextChar (c : Char) : Prop := isWordChar c ∨ c ∈ [' ', ',', '(', ')']

instance (c : Char) : Decidable (IsTextChar c) := inferInstanceAs (Decidable (_ ∨ _))

theorem rs_lt (i : Instruction) : i.rs < Register.count := i.raw.rs.isLt

theorem rt_lt (i : Instruction) : i.rt < Register.count := i.raw.rt.isLt

theorem rd_lt (i : Instruction) : i.rd < Register.count := i.raw.rd.isLt

theorem toList_displacement (offset base : String) :
    (offset ++ "(" ++ base ++ ")").toList = offset.toList ++ '(' :: (base.toList ++ [')']) := by
  rw [String.toList_append, String.toList_append, String.toList_append, List.append_assoc,
    List.append_assoc]
  rfl

theorem isTextChar_operands (i : Instruction) :
    ∀ operand ∈ i.operands, ∀ c ∈ operand.toList, IsTextChar c := by
  have solid {text : List Char} (solid : Assembly.Solid text) : ∀ c ∈ text, IsTextChar c :=
    fun c member => .inl (solid.isWordChar c member)
  have rs := solid (Register.solid_name i.rs_lt)
  have rt := solid (Register.solid_name i.rt_lt)
  have rd := solid (Register.solid_name i.rd_lt)
  have imm := solid (Assembly.denotes_toString i.imm.toInt).solid
  have shamt := solid (Assembly.denotes_repr i.shamt.toNat).solid
  have target := solid (Assembly.denotes_upperHex (4 * i.target.toNat)).solid
  have memory : ∀ c ∈ (toString i.imm.toInt ++ "(" ++ Register.name i.rs ++ ")").toList,
      IsTextChar c := by
    intro c member
    rw [toList_displacement] at member
    simp only [List.mem_append, List.mem_cons, List.not_mem_nil, or_false] at member
    rcases member with early | rfl | late | rfl
    · exact imm c early
    · decide
    · exact rs c late
    · decide
  unfold operands
  cases i.op.layout <;>
    simp only [List.mem_cons, List.not_mem_nil, or_false, forall_eq_or_imp, forall_eq]
  case threeRegisters => exact ⟨rd, rs, rt⟩
  case shift => exact ⟨rd, rt, shamt⟩
  case oneRegister => exact rs
  case immediate => exact ⟨rt, rs, imm⟩
  case memory => exact ⟨rt, memory⟩
  case branch => exact ⟨rs, rt, imm⟩
  case jump => exact target

theorem toList_assembly {i : Instruction} (something : ¬ i.IsNop) :
    i.assembly.toList = i.op.mnemonic.toList ++ ' ' ::
      [',', ' '].intercalate (i.operands.map String.toList) := by
  rw [assembly, if_neg something, String.toList_append, String.toList_append,
    String.toList_intercalate, List.append_assoc]
  rfl

theorem isTextChar_assembly (i : Instruction) : ∀ c ∈ i.assembly.toList, IsTextChar c := by
  by_cases nop : i.IsNop
  · rw [assembly, if_pos nop]
    have solid : Assembly.Solid "nop".toList := by decide
    exact fun c member => .inl (solid.isWordChar c member)
  · rw [toList_assembly nop]
    intro c member
    rcases List.mem_append.mp member with early | late
    · exact .inl (i.op.solid_mnemonic.isWordChar c early)
    · rcases List.mem_cons.mp late with rfl | late
      · exact .inr (by decide)
      · refine Text.forall_mem_intercalate ?_ ?_ c late
        · intro d between
          simp only [List.mem_cons, List.not_mem_nil, or_false] at between
          rcases between with rfl | rfl <;> decide
        · intro text listed
          obtain ⟨operand, operand_of, rfl⟩ := List.mem_map.mp listed
          exact i.isTextChar_operands operand operand_of

/-- The text of an instruction is one line of a program, all of it instruction. -/
theorem ofText_assembly (i : Instruction) :
    Assembly.Line.ofText i.assembly.toList = ⟨[], none, Text.trim i.assembly.toList⟩ := by
  apply Assembly.Line.ofText_of_plain
  · intro member
    exact absurd (i.isTextChar_assembly '#' member) (by decide)
  · intro member
    exact absurd (i.isTextChar_assembly ':' member) (by decide)

theorem unbroken_assembly (i : Instruction) : '\n' ∉ i.assembly.toList := by
  intro member
  exact absurd (i.isTextChar_assembly '\n' member) (by decide)

theorem tokens_assembly {i : Instruction} (something : ¬ i.IsNop) :
    Text.tokens isOperandSeparator i.assembly.toList =
      i.op.mnemonic.toList :: i.operands.flatMap (Text.tokens isOperandSeparator ·.toList) := by
  rw [toList_assembly something, Text.tokens_append_separator _ (by decide),
    i.op.solid_mnemonic.tokens, Text.tokens_intercalate (List.all_eq_true.mp (by decide)),
    List.flatMap_map]
  rfl

/-- The operands one by one: the two in the last operand of a load or store are apart. -/
def operandTexts (i : Instruction) : List String :=
  match i.op.layout with
  | .memory => [Register.name i.rt, toString i.imm.toInt, Register.name i.rs]
  | _ => i.operands

theorem flatMap_tokens_operands (i : Instruction) :
    i.operands.flatMap (Text.tokens isOperandSeparator ·.toList) =
      i.operandTexts.map String.toList := by
  have rs := (Register.solid_name i.rs_lt).tokens
  have rt := (Register.solid_name i.rt_lt).tokens
  have rd := (Register.solid_name i.rd_lt).tokens
  have imm := (Assembly.denotes_toString i.imm.toInt).solid.tokens
  have shamt := (Assembly.denotes_repr i.shamt.toNat).solid.tokens
  have target := (Assembly.denotes_upperHex (4 * i.target.toNat)).solid.tokens
  have memory : Text.tokens isOperandSeparator
      (toString i.imm.toInt ++ "(" ++ Register.name i.rs ++ ")").toList =
        [(toString i.imm.toInt).toList, (Register.name i.rs).toList] := by
    rw [toList_displacement, Text.tokens_append_separator _ (by decide),
      Text.tokens_append_separator _ (by decide), imm, rs]
    rfl
  unfold operandTexts operands
  cases i.op.layout <;>
    simp only [List.flatMap_cons, List.flatMap_nil, List.map_cons, List.map_nil, rs, rt, rd, imm,
      shamt, target, memory, List.append_nil, List.cons_append, List.nil_append]

theorem assembly_raw (i : Instruction) : i.raw.assembly = i.assembly := by
  rw [Word.assembly, i.decode_raw]

theorem not_isNop_of_jump {i : Instruction} (jump : i.format = .jump) : ¬ i.IsNop := by
  intro nop
  rw [eq_of_isNop nop] at jump
  contradiction

theorem toList_assembly_of_jump {i : Instruction} (jump : i.format = .jump) :
    i.assembly.toList =
      i.op.mnemonic.toList ++ ' ' :: (Text.upperHex 0 (4 * i.target.toNat)).toList := by
  have layout : i.op.layout = .jump := Op.layout_of_jump jump
  rw [toList_assembly (not_isNop_of_jump jump)]
  simp only [operands, layout, List.map_cons, List.map_nil, List.intercalate_singleton]

theorem target_of_assembly {i j : Instruction} (op : i.op = j.op) (jump : i.format = .jump)
    (same : i.assembly = j.assembly) : i.raw.target = j.raw.target := by
  have jump' : j.format = .jump := by rw [← jump, format, format, op]
  have texts := congrArg String.toList same
  rw [toList_assembly_of_jump jump, toList_assembly_of_jump jump', op] at texts
  have written_same := List.tail_eq_of_cons_eq (List.append_cancel_left texts)
  have written := Assembly.denotes_upperHex (4 * i.target.toNat)
  rw [written_same] at written
  have targets := written.unique (Assembly.denotes_upperHex (4 * j.target.toNat))
  simp only [target, jump, jump'] at targets
  apply BitVec.eq_of_toNat_eq
  omega

end Instruction

end MipsPipeline
