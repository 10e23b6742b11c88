import MipsPipeline.Proofs.Labels
import MipsPipeline.Proofs.Naming
import MipsPipeline.Proofs.Printing

/-
What an instruction may look like, as it is documented: the mnemonic, then operands that are
registers, numbers in the range of their field and labels of the program. What is accepted is that
and two things more, a number of a register with a plus sign and a line of nothing but separators.
-/
namespace MipsPipeline

namespace Text

variable {isSeparator : Char → Bool}

theorem not_separator_of_mem_pieces {text : List Char} :
    ∀ piece ∈ pieces isSeparator text, ∀ c ∈ piece, ¬ isSeparator c := by
  induction text with
  | nil =>
    intro piece impossible
    contradiction
  | cons d rest ih =>
    rw [pieces_cons]
    by_cases separator : isSeparator d
    · rw [pieceStep_of_separator separator, List.forall_mem_cons]
      exact ⟨by simp, ih⟩
    · cases cut : pieces isSeparator rest with
      | nil => simp [pieceStep, separator]
      | cons piece others =>
        rw [cut, List.forall_mem_cons] at ih
        rw [pieceStep_cons separator, List.forall_mem_cons, List.forall_mem_cons]
        exact ⟨⟨separator, ih.1⟩, ih.2⟩

theorem not_separator_of_mem_tokens {text token : List Char}
    (member : token ∈ tokens isSeparator text) : ∀ c ∈ token, ¬ isSeparator c :=
  not_separator_of_mem_pieces token (List.mem_of_mem_filter member)

end Text

namespace Assembly

/-- The operands of a layout, given what stands for a register, for the destination of a branch and
for that of a jump. -/
inductive Takes (register branch jump : List Char → Prop) : Layout → List (List Char) → Prop where
  | threeRegisters {d s t : List Char} (rd : register d) (rs : register s) (rt : register t) :
      Takes register branch jump .threeRegisters [d, s, t]
  | shift {d t amount : List Char} {n : Int} (rd : register d) (rt : register t)
      (written : Denotes amount n) (range : 0 ≤ n ∧ n ≤ 31) :
      Takes register branch jump .shift [d, t, amount]
  | oneRegister {s : List Char} (rs : register s) : Takes register branch jump .oneRegister [s]
  | immediate {t s value : List Char} {n : Int} (rt : register t) (rs : register s)
      (written : Denotes value n) (range : -32768 ≤ n ∧ n ≤ 65535) :
      Takes register branch jump .immediate [t, s, value]
  | memory {t offset s : List Char} {n : Int} (rt : register t) (written : Denotes offset n)
      (range : -32768 ≤ n ∧ n ≤ 65535) (rs : register s) :
      Takes register branch jump .memory [t, offset, s]
  | memoryWithoutOffset {t s : List Char} (rt : register t) (rs : register s) :
      Takes register branch jump .memory [t, s]
  | branch {s t destination : List Char} (rs : register s) (rt : register t)
      (goes : branch destination) : Takes register branch jump .branch [s, t, destination]
  | jump {destination : List Char} (goes : jump destination) :
      Takes register branch jump .jump [destination]

/-- The body is `nop`, or a mnemonic with the operands of its operation. -/
inductive IsInstruction (register branch jump : List Char → Prop) (body : List Char) : Prop where
  | nop {head : List Char} (alone : Text.tokens isOperandSeparator body = [head])
      (named : head.map Char.toLower = "nop".toList) : IsInstruction register branch jump body
  | operation {op : Op} {operands : List (List Char)} (spells : Spells body op operands)
      (takes : Takes register branch jump op.layout operands) :
      IsInstruction register branch jump body

section Operands

variable {register register' branch branch' jump jump' : List Char → Prop} {layout : Layout}
  {operands : List (List Char)} {body : List Char}

theorem Takes.imp (takes : Takes register branch jump layout operands)
    (registers : ∀ o ∈ operands, register o → register' o)
    (branches : ∀ o ∈ operands, branch o → branch' o)
    (jumps : ∀ o ∈ operands, jump o → jump' o) :
    Takes register' branch' jump' layout operands := by
  cases takes with
  | threeRegisters rd rs rt =>
    exact .threeRegisters (registers _ (by simp) rd) (registers _ (by simp) rs)
      (registers _ (by simp) rt)
  | shift rd rt written range =>
    exact .shift (registers _ (by simp) rd) (registers _ (by simp) rt) written range
  | oneRegister rs => exact .oneRegister (registers _ (by simp) rs)
  | immediate rt rs written range =>
    exact .immediate (registers _ (by simp) rt) (registers _ (by simp) rs) written range
  | memory rt written range rs =>
    exact .memory (registers _ (by simp) rt) written range (registers _ (by simp) rs)
  | memoryWithoutOffset rt rs =>
    exact .memoryWithoutOffset (registers _ (by simp) rt) (registers _ (by simp) rs)
  | branch rs rt goes =>
    exact .branch (registers _ (by simp) rs) (registers _ (by simp) rt) (branches _ (by simp) goes)
  | jump goes => exact .jump (jumps _ (by simp) goes)

theorem Takes.operand (takes : Takes register branch jump layout operands) :
    ∀ o ∈ operands, register o ∨ (∃ n, Denotes o n) ∨ branch o ∨ jump o := by
  cases takes with
  | threeRegisters rd rs rt => simp [rd, rs, rt]
  | shift rd rt written range =>
    have number := Exists.intro _ written
    simp [rd, rt, number]
  | oneRegister rs => simp [rs]
  | immediate rt rs written range =>
    have number := Exists.intro _ written
    simp [rt, rs, number]
  | memory rt written range rs =>
    have number := Exists.intro _ written
    simp [rt, rs, number]
  | memoryWithoutOffset rt rs => simp [rt, rs]
  | branch rs rt goes => simp [rs, rt, goes]
  | jump goes => simp [goes]

theorem IsInstruction.imp (instruction : IsInstruction register branch jump body)
    (registers : ∀ o ∈ Text.tokens isOperandSeparator body, register o → register' o)
    (branches : ∀ o ∈ Text.tokens isOperandSeparator body, branch o → branch' o)
    (jumps : ∀ o ∈ Text.tokens isOperandSeparator body, jump o → jump' o) :
    IsInstruction register' branch' jump' body := by
  cases instruction with
  | nop alone named => exact .nop alone named
  | @operation op operands spells takes =>
    obtain ⟨head, tokens, -⟩ := id spells
    have listed : ∀ o ∈ operands, o ∈ Text.tokens isOperandSeparator body := by
      intro o member
      rw [tokens]
      exact List.mem_cons_of_mem head member
    exact .operation spells (takes.imp (fun o member => registers o (listed o member))
      (fun o member => branches o (listed o member)) fun o member => jumps o (listed o member))

theorem IsInstruction.token (instruction : IsInstruction register branch jump body) :
    ∀ token ∈ Text.tokens isOperandSeparator body,
      (∃ name, token.map Char.toLower = name ∧ name.all Char.isAlpha) ∨
        register token ∨ (∃ n, Denotes token n) ∨ branch token ∨ jump token := by
  cases instruction with
  | nop alone named =>
    rw [alone]
    intro token member
    obtain rfl := List.mem_singleton.mp member
    exact .inl ⟨_, named, by decide⟩
  | @operation op operands spells takes =>
    obtain ⟨head, tokens, named⟩ := spells
    have letters : op.mnemonic.toList.all Char.isAlpha := by cases op <;> decide
    rw [tokens, List.forall_mem_cons]
    exact ⟨.inl ⟨_, named, letters⟩, fun o member => .inr (takes.operand o member)⟩

end Operands

section Encoding

variable {labels : Labels} {address w : Word} {op : Op} {operands : List (List Char)}
  {body : List Char}

theorem takes_of_encodeOperands (encoded : encodeOperands labels address op operands = .ok w) :
    Takes (fun o => ∃ i, Register.index? o = some i)
      (fun o => ∃ n, branchOffset labels address o = .ok n)
      (fun o => ∃ n, jumpWord labels o = .ok n) op.layout operands := by
  unfold encodeOperands at encoded
  split at encoded <;> try rename_i layout; rw [layout]
  all_goals
    simp only [bind_eq_ok_iff, register_eq_ok_iff, shiftAmount, halfword, integerWithin_eq_ok_iff,
      integer?_eq_some_iff, pure, Except.pure, Except.ok.injEq, reduceCtorEq] at encoded
  · obtain ⟨rd, hd, rs, hs, rt, ht, -⟩ := encoded
    exact .threeRegisters ⟨rd, hd⟩ ⟨rs, hs⟩ ⟨rt, ht⟩
  · obtain ⟨rd, hd, rt, ht, n, ⟨⟨written, -⟩, range⟩, -⟩ := encoded
    exact .shift ⟨rd, hd⟩ ⟨rt, ht⟩ written range
  · obtain ⟨rs, hs, -⟩ := encoded
    exact .oneRegister ⟨rs, hs⟩
  · obtain ⟨rt, ht, rs, hs, n, ⟨⟨written, -⟩, range⟩, -⟩ := encoded
    exact .immediate ⟨rt, ht⟩ ⟨rs, hs⟩ written range
  · obtain ⟨rt, ht, rs, hs, -⟩ := encoded
    exact .memoryWithoutOffset ⟨rt, ht⟩ ⟨rs, hs⟩
  · obtain ⟨rt, ht, n, ⟨⟨written, -⟩, range⟩, rs, hs, -⟩ := encoded
    exact .memory ⟨rt, ht⟩ written range ⟨rs, hs⟩
  · obtain ⟨rs, hs, rt, ht, n, offset, -⟩ := encoded
    exact .branch ⟨rs, hs⟩ ⟨rt, ht⟩ ⟨n, offset⟩
  · obtain ⟨n, word, -⟩ := encoded
    exact .jump ⟨n, word⟩

theorem exists_encodeOperands (takes : Takes (fun o => ∃ i, Register.index? o = some i)
      (fun o => ∃ n, branchOffset labels address o = .ok n)
      (fun o => ∃ n, jumpWord labels o = .ok n) op.layout operands) :
    ∃ w, encodeOperands labels address op operands = .ok w := by
  unfold encodeOperands
  generalize op.layout = layout at takes
  cases takes <;>
    simp only [bind_eq_ok_iff, register_eq_ok_iff, pure, Except.pure, Except.ok.injEq]
  case threeRegisters rd rs rt =>
    obtain ⟨⟨rd, hd⟩, ⟨rs, hs⟩, ⟨rt, ht⟩⟩ := And.intro rd (And.intro rs rt)
    exact ⟨_, rd, hd, rs, hs, rt, ht, rfl⟩
  case shift n rd rt written range =>
    obtain ⟨⟨rd, hd⟩, ⟨rt, ht⟩⟩ := And.intro rd rt
    exact ⟨_, rd, hd, rt, ht, n, integerWithin_of_denotes written (by omega) range.1 range.2, rfl⟩
  case oneRegister rs =>
    obtain ⟨rs, hs⟩ := rs
    exact ⟨_, rs, hs, rfl⟩
  case immediate n rt rs written range =>
    obtain ⟨⟨rt, ht⟩, ⟨rs, hs⟩⟩ := And.intro rt rs
    exact ⟨_, rt, ht, rs, hs, n, integerWithin_of_denotes written (by omega) range.1 range.2, rfl⟩
  case memory n rt written range rs =>
    obtain ⟨⟨rt, ht⟩, ⟨rs, hs⟩⟩ := And.intro rt rs
    exact ⟨_, rt, ht, n, integerWithin_of_denotes written (by omega) range.1 range.2, rs, hs, rfl⟩
  case memoryWithoutOffset rt rs =>
    obtain ⟨⟨rt, ht⟩, ⟨rs, hs⟩⟩ := And.intro rt rs
    exact ⟨_, rt, ht, rs, hs, rfl⟩
  case branch rs rt goes =>
    obtain ⟨⟨rs, hs⟩, ⟨rt, ht⟩, ⟨n, offset⟩⟩ := And.intro rs (And.intro rt goes)
    exact ⟨_, rs, hs, rt, ht, n, offset, rfl⟩
  case jump goes =>
    obtain ⟨n, word⟩ := goes
    exact ⟨_, n, word, rfl⟩

/-- A body has an encoding if it says something with operands that have one, or nothing at all. -/
theorem exists_encode_iff : (∃ w, encode labels address body = .ok w) ↔
    Text.tokens isOperandSeparator body = [] ∨
      IsInstruction (fun o => ∃ i, Register.index? o = some i)
        (fun o => ∃ n, branchOffset labels address o = .ok n)
        (fun o => ∃ n, jumpWord labels o = .ok n) body := by
  constructor
  · rintro ⟨w, encoded⟩
    rcases idles_or_spells encoded with ⟨nothing | ⟨head, alone, named⟩, -⟩ | ⟨op, operands, spells⟩
    · exact .inl nothing
    · exact .inr (.nop alone named)
    · rw [encode_of_spells spells] at encoded
      exact .inr (.operation spells (takes_of_encodeOperands encoded))
  · rintro (nothing | instruction)
    · exact ⟨0, by rw [encode, nothing]⟩
    · cases instruction with
      | nop alone named =>
        have name := congrArg String.ofList named
        exact ⟨0, by simp [encode, alone, name]⟩
      | operation spells takes =>
        rw [encode_of_spells spells]
        exact exists_encodeOperands takes

end Encoding

end Assembly

end MipsPipeline
