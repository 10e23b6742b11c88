import MipsPipeline.Program.Load
import MipsPipeline.Proofs.Fallible
import MipsPipeline.Proofs.Fields
import MipsPipeline.Proofs.Numeral
import MipsPipeline.Proofs.Placement

/-
What the assembler emits. Every word of an assembled program decodes, to the operation that its line
names, with the registers and the number that the operands give.
-/
namespace MipsPipeline

theorem Register.index?_lt {text : List Char} {i : Nat} (found : index? text = some i) :
    i < count := by
  unfold index? at found
  split at found
  · split at found
    · split at found
      · rename_i small
        exact Option.some.inj found ▸ small
      · contradiction
    · split at found
      · exact Option.some.inj found ▸ (by decide)
      · exact (List.findIdx?_eq_some_iff_findIdx_eq.mp found).1
  · contradiction

namespace Op

theorem mnemonic_ne_nop (op : Op) : op.mnemonic ≠ "nop" := by
  cases op <;> decide

theorem ofMnemonic?_eq_some_iff {name : String} {op : Op} :
    ofMnemonic? name = some op ↔ name = op.mnemonic := by
  unfold ofMnemonic?
  constructor
  · intro found
    simpa [eq_comm] using List.find?_some found
  · rintro rfl
    cases op <;> decide

theorem eq_of_ofMnemonic? {name : List Char} {op : Op}
    (known : ofMnemonic? (String.ofList name) = some op) : name = op.mnemonic.toList := by
  rw [← ofMnemonic?_eq_some_iff.mp known, String.toList_ofList]

theorem not_zeroExtends_of_branch {op : Op} (layout : op.layout = .branch) : ¬ op.ZeroExtends := by
  cases op <;> first | contradiction | decide

end Op

theorem Assembly.ofNat_fieldOf (width : Nat) (n : Int) :
    BitVec.ofNat width (fieldOf width n) = BitVec.ofInt width n := by
  rw [fieldOf, BitVec.ofNat_toNat, BitVec.setWidth_eq]

namespace Instruction

open Assembly (fieldOf ofNat_fieldOf)

/-- The number is in the 16-bit field: modulo `2 ^ 16` in any case, and as it stands where the
operation extends the field back to it. -/
def Carries (i : Instruction) (n : Int) : Prop :=
  i.imm.toInt % 65536 = n % 65536 ∧
    ((if i.op.ZeroExtends then 0 ≤ n ∧ n ≤ 65535 else -32768 ≤ n ∧ n ≤ 32767) → i.imm.toInt = n)

theorem toInt_zeroExtend_halfword (n : Int) :
    ((BitVec.ofInt 16 n).setWidth 32).toInt = n % 65536 := by
  rw [BitVec.toInt_eq_toNat_of_lt, BitVec.toNat_setWidth, BitVec.toNat_ofInt]
  · omega
  · rw [BitVec.toNat_setWidth, BitVec.toNat_ofInt]
    omega

theorem toInt_signExtend_halfword (n : Int) :
    ((BitVec.ofInt 16 n).signExtend 32).toInt = n.bmod 65536 := by
  rw [BitVec.toInt_signExtend_of_le (by decide), BitVec.toInt_ofInt]

theorem carries_of_imm {i : Instruction} {n : Int} (format : i.format = .immediate)
    (field : i.raw.imm = BitVec.ofInt 16 n) : i.Carries n := by
  unfold Carries
  by_cases zero : i.op.ZeroExtends
  · have value : i.imm.toInt = n % 65536 := by
      rw [← toInt_zeroExtend_halfword]
      simp [imm, format, zero, field]
    rw [if_pos zero, value]
    omega
  · have value : i.imm.toInt = n.bmod 65536 := by
      rw [← toInt_signExtend_halfword]
      simp [imm, format, zero, field]
    rw [if_neg zero, value]
    exact ⟨Int.bmod_emod, fun fits => Int.bmod_eq_of_le (by omega) (by omega)⟩

section Forms

variable {op : Op} (rs rt rd : Nat) {n : Int}

theorem shamt_ofRegisterForm (format : op.format = .register) (low : 0 ≤ n) (high : n ≤ 31) :
    ((ofRegisterForm rs rt rd (fieldOf 5 n) format).shamt.toNat : Int) = n := by
  rw [shamt, raw_ofRegisterForm, Word.shamt_ofRegisterFields, ofNat_fieldOf]
  simp
  omega

theorem carries_ofImmediateForm (format : op.format = .immediate) :
    (ofImmediateForm rs rt (fieldOf 16 n) format).Carries n := by
  apply carries_of_imm
  · exact format
  · rw [raw_ofImmediateForm, Word.imm_ofImmediateFields, ofNat_fieldOf]

theorem imm_ofImmediateForm_zero (format : op.format = .immediate) :
    (ofImmediateForm rs rt 0 format).imm = 0 := by
  have field : (ofImmediateForm rs rt 0 format).raw.imm = 0 := by simp
  rw [imm, field]
  split
  · split <;> rfl
  · rfl
  · rfl

theorem target_ofJumpForm (format : op.format = .jump) :
    ((ofJumpForm (fieldOf 26 n) format).target.toNat : Int) = n % 67108864 := by
  have same : (ofJumpForm (fieldOf 26 n) format).format = .jump := format
  rw [target, same, raw_ofJumpForm, Word.target_ofJumpFields, ofNat_fieldOf, BitVec.toNat_ofInt]
  omega

end Forms

end Instruction

namespace Assembly

/-- The body is an instruction: the mnemonic of the operation in any case, then the operands. -/
def Spells (body : List Char) (op : Op) (operands : List (List Char)) : Prop :=
  ∃ head, Text.tokens isOperandSeparator body = head :: operands ∧
    head.map Char.toLower = op.mnemonic.toList

/-- The body is nothing but separators, or `nop` in any case. -/
def Idles (body : List Char) : Prop :=
  Text.tokens isOperandSeparator body = [] ∨ ∃ head,
    Text.tokens isOperandSeparator body = [head] ∧ head.map Char.toLower = "nop".toList

/-- The fields of the instruction are what the operands give in their roles, and fields of the
format without an operand are zero. A destination that is no number is a label. -/
inductive Fits (i : Instruction) : List (List Char) → Prop where
  | threeRegisters {d s t : List Char} (layout : i.op.layout = .threeRegisters)
      (rd : Register.index? d = some i.rd) (rs : Register.index? s = some i.rs)
      (rt : Register.index? t = some i.rt) (shamt : i.shamt = 0) : Fits i [d, s, t]
  | shift {d t amount : List Char} (layout : i.op.layout = .shift)
      (rd : Register.index? d = some i.rd) (rt : Register.index? t = some i.rt)
      (shamt : Denotes amount i.shamt.toNat) (rs : i.rs = 0) : Fits i [d, t, amount]
  | oneRegister {s : List Char} (layout : i.op.layout = .oneRegister)
      (rs : Register.index? s = some i.rs) (rt : i.rt = 0) (rd : i.rd = 0)
      (shamt : i.shamt = 0) : Fits i [s]
  | immediate {t s value : List Char} {n : Int} (layout : i.op.layout = .immediate)
      (rt : Register.index? t = some i.rt) (rs : Register.index? s = some i.rs)
      (written : Denotes value n) (imm : i.Carries n) : Fits i [t, s, value]
  | memory {t offset s : List Char} {n : Int} (layout : i.op.layout = .memory)
      (rt : Register.index? t = some i.rt) (rs : Register.index? s = some i.rs)
      (written : Denotes offset n) (imm : i.Carries n) : Fits i [t, offset, s]
  | memoryWithoutOffset {t s : List Char} (layout : i.op.layout = .memory)
      (rt : Register.index? t = some i.rt) (rs : Register.index? s = some i.rs)
      (imm : i.imm = 0) : Fits i [t, s]
  | branch {s t destination : List Char} (layout : i.op.layout = .branch)
      (rs : Register.index? s = some i.rs) (rt : Register.index? t = some i.rt)
      (imm : ∀ n, Denotes destination n → i.Carries n) : Fits i [s, t, destination]
  | jump {destination : List Char} (layout : i.op.layout = .jump)
      (target : ∀ n, Denotes destination n → (i.target.toNat : Int) = n % 67108864) :
      Fits i [destination]

/-- The word is what the body stands for. -/
inductive Means : List Char → Word → Prop where
  | idle {body : List Char} (idles : Idles body) : Means body 0
  | instruction {body : List Char} {w : Word} {i : Instruction} {operands : List (List Char)}
      (spells : Spells body i.op operands) (decodes : Instruction.decode w = .ok i)
      (fits : Fits i operands) : Means body w

section Operands

variable {operand : List Char}

theorem register_eq_ok_iff {i : Nat} :
    register operand = .ok i ↔ Register.index? operand = some i := by
  unfold register
  cases Register.index? operand <;> simp

theorem integerWithin_eq_ok_iff {low high n : Int} :
    integerWithin low high operand = .ok n ↔ integer? operand = some n ∧ low ≤ n ∧ n ≤ high := by
  unfold integerWithin
  cases read : integer? operand with
  | none => simp
  | some m =>
    by_cases within : low ≤ m ∧ m ≤ high
    · simp only [within, and_self, ↓reduceIte, Except.ok.injEq, Option.some.injEq]
      constructor
      · rintro rfl
        exact ⟨rfl, within⟩
      · exact And.left
    · simp only [within, ↓reduceIte, Option.some.injEq]
      constructor
      · intro impossible
        contradiction
      · rintro ⟨rfl, within'⟩
        exact absurd within' within

theorem literalDestination_eq_ok_iff {n : Int} :
    literalDestination operand = .ok n ↔ integer? operand = some n := by
  unfold literalDestination
  cases integer? operand <;> simp

theorem integer?_of_denotes {n : Int} (denotes : Denotes operand n)
    (small : n.natAbs < 9223372036854775808) : integer? operand = some n :=
  integer?_eq_some_iff.mpr ⟨denotes, small⟩

theorem integerWithin_of_denotes {low high n : Int} (denotes : Denotes operand n)
    (small : n.natAbs < 9223372036854775808) (below : low ≤ n) (above : n ≤ high) :
    integerWithin low high operand = .ok n :=
  integerWithin_eq_ok_iff.mpr ⟨integer?_of_denotes denotes small, below, above⟩

end Operands

/-- A register operand reads back from the field that its index was put into. -/
theorem index?_of_field {operand : List Char} {n : Nat} {field : BitVec 5}
    (found : Register.index? operand = some n) (filled : field = BitVec.ofNat 5 n) :
    Register.index? operand = some field.toNat := by
  have small := Register.index?_lt found
  rw [filled, BitVec.toNat_ofNat, Nat.mod_eq_of_lt small, found]

/-- A number is never looked up as a label. -/
theorem label_of_denotes {labels : Labels}
    (only_labels : ∀ label address, labels[label]? = some address → isLabel label)
    {operand : List Char} {n : Int} (denotes : Denotes operand n) : labels[operand]? = none := by
  cases found : labels[operand]? with
  | none => rfl
  | some address => exact absurd (only_labels operand address found) denotes.not_isLabel

theorem branchOffset_of_denotes {labels : Labels} {address : Word} {operand : List Char} {n m : Int}
    (missing : labels[operand]? = none) (denotes : Denotes operand n)
    (encoded : branchOffset labels address operand = .ok m) : m = n := by
  simp only [branchOffset, missing, bind_eq_ok_iff, literalDestination_eq_ok_iff] at encoded
  obtain ⟨offset, read, checked⟩ := encoded
  split at checked
  · rw [← Except.ok.inj checked]
    exact (integer?_eq_some_iff.mp read).1.unique denotes
  · contradiction

theorem jumpWord_of_denotes {labels : Labels} {operand : List Char} {n m : Int}
    (missing : labels[operand]? = none) (denotes : Denotes operand n)
    (encoded : jumpWord labels operand = .ok m) : m = n := by
  rw [jumpWord, missing, literalDestination_eq_ok_iff, integer?_eq_some_iff] at encoded
  exact encoded.1.unique denotes

section Written

variable {labels : Labels} {address : Word} {operand : List Char} {n : Int}
  (only_labels : ∀ label address, labels[label]? = some address → isLabel label)
  (denotes : Denotes operand n)

include only_labels denotes

theorem branchOffset_of_written (below : -32768 ≤ n) (above : n ≤ 32767) :
    branchOffset labels address operand = .ok n := by
  have read := literalDestination_eq_ok_iff.mpr (integer?_of_denotes denotes (by omega))
  simp only [branchOffset, label_of_denotes only_labels denotes, read, below, above, and_self,
    ↓reduceIte, bind, Except.bind, pure, Except.pure]

theorem jumpWord_of_written (small : n.natAbs < 9223372036854775808) :
    jumpWord labels operand = .ok n := by
  rw [jumpWord, label_of_denotes only_labels denotes]
  exact literalDestination_eq_ok_iff.mpr (integer?_of_denotes denotes small)

end Written

section Destinations

variable {labels : Labels} {address w : Word} {op : Op} {destination : List Char}

theorem branch_of_encodeOperands {s t : List Char} (layout : op.layout = .branch)
    (encoded : encodeOperands labels address op [s, t, destination] = .ok w) :
    ∃ (i : Instruction) (n : Int), i.raw = w ∧ i.op = op ∧ Register.index? s = some i.rs ∧
      Register.index? t = some i.rt ∧ branchOffset labels address destination = .ok n ∧
      i.Carries n := by
  have format : op.format = .immediate := by rw [Op.format, layout]
  simp only [encodeOperands, layout, bind_eq_ok_iff, register_eq_ok_iff, pure, Except.pure,
    Except.ok.injEq] at encoded
  obtain ⟨rs, hs, rt, ht, n, offset, rfl⟩ := encoded
  exact ⟨.ofImmediateForm rs rt (fieldOf 16 n) format, n, rfl, rfl, index?_of_field hs (by simp),
    index?_of_field ht (by simp), offset, Instruction.carries_ofImmediateForm rs rt format⟩

theorem jump_of_encodeOperands (layout : op.layout = .jump)
    (encoded : encodeOperands labels address op [destination] = .ok w) :
    ∃ (i : Instruction) (n : Int), i.raw = w ∧ i.op = op ∧ jumpWord labels destination = .ok n ∧
      (i.target.toNat : Int) = n % 67108864 := by
  have format : op.format = .jump := by rw [Op.format, layout]
  simp only [encodeOperands, layout, bind_eq_ok_iff, pure, Except.pure, Except.ok.injEq] at encoded
  obtain ⟨n, word, rfl⟩ := encoded
  exact ⟨.ofJumpForm (fieldOf 26 n) format, n, rfl, rfl, word,
    Instruction.target_ofJumpForm format⟩

end Destinations

theorem fits_of_encodeOperands {labels : Labels} {address : Word} {op : Op}
    {operands : List (List Char)} {w : Word}
    (only_labels : ∀ label address, labels[label]? = some address → isLabel label)
    (encoded : encodeOperands labels address op operands = .ok w) :
    ∃ i : Instruction, i.raw = w ∧ i.op = op ∧ Fits i operands := by
  have whole := encoded
  unfold encodeOperands at encoded
  -- One case for each layout with the operands it takes; any other number of them is a fault.
  split at encoded <;> rename_i layout <;>
    simp only [bind_eq_ok_iff, register_eq_ok_iff, shiftAmount, halfword, integerWithin_eq_ok_iff,
      integer?_eq_some_iff, pure, Except.pure, Except.ok.injEq, reduceCtorEq] at encoded
  · obtain ⟨rd, hd, rs, hs, rt, ht, rfl⟩ := encoded
    have format : op.format = .register := by rw [Op.format, layout]
    exact ⟨.ofRegisterForm rs rt rd 0 format, rfl, rfl, .threeRegisters layout
      (index?_of_field hd (by simp)) (index?_of_field hs (by simp)) (index?_of_field ht (by simp))
      (by simp [Instruction.shamt])⟩
  · obtain ⟨rd, hd, rt, ht, n, ⟨⟨denotes, -⟩, low, high⟩, rfl⟩ := encoded
    have format : op.format = .register := by rw [Op.format, layout]
    have shamt := Instruction.shamt_ofRegisterForm 0 rt rd format low high
    exact ⟨.ofRegisterForm 0 rt rd (fieldOf 5 n) format, rfl, rfl, .shift layout
      (index?_of_field hd (by simp)) (index?_of_field ht (by simp)) (by rwa [shamt])
      (by simp [Instruction.rs])⟩
  · obtain ⟨rs, hs, rfl⟩ := encoded
    have format : op.format = .register := by rw [Op.format, layout]
    exact ⟨.ofRegisterForm rs 0 0 0 format, rfl, rfl, .oneRegister layout
      (index?_of_field hs (by simp)) (by simp [Instruction.rt]) (by simp [Instruction.rd])
      (by simp [Instruction.shamt])⟩
  · obtain ⟨rt, ht, rs, hs, n, ⟨⟨denotes, -⟩, -⟩, rfl⟩ := encoded
    have format : op.format = .immediate := by rw [Op.format, layout]
    exact ⟨.ofImmediateForm rs rt (fieldOf 16 n) format, rfl, rfl, .immediate layout
      (index?_of_field ht (by simp)) (index?_of_field hs (by simp)) denotes
      (Instruction.carries_ofImmediateForm rs rt format)⟩
  · obtain ⟨rt, ht, rs, hs, rfl⟩ := encoded
    have format : op.format = .immediate := by rw [Op.format, layout]
    exact ⟨.ofImmediateForm rs rt 0 format, rfl, rfl, .memoryWithoutOffset layout
      (index?_of_field ht (by simp)) (index?_of_field hs (by simp))
      (Instruction.imm_ofImmediateForm_zero rs rt format)⟩
  · obtain ⟨rt, ht, n, ⟨⟨denotes, -⟩, -⟩, rs, hs, rfl⟩ := encoded
    have format : op.format = .immediate := by rw [Op.format, layout]
    exact ⟨.ofImmediateForm rs rt (fieldOf 16 n) format, rfl, rfl, .memory layout
      (index?_of_field ht (by simp)) (index?_of_field hs (by simp)) denotes
      (Instruction.carries_ofImmediateForm rs rt format)⟩
  · obtain ⟨i, m, raw, rfl, hs, ht, offset, carries⟩ := branch_of_encodeOperands layout whole
    refine ⟨i, raw, rfl, .branch layout hs ht fun n denotes => ?_⟩
    have same := branchOffset_of_denotes (label_of_denotes only_labels denotes) denotes offset
    rwa [same] at carries
  · obtain ⟨i, m, raw, rfl, word, target⟩ := jump_of_encodeOperands layout whole
    refine ⟨i, raw, rfl, .jump layout fun n denotes => ?_⟩
    have same := jumpWord_of_denotes (label_of_denotes only_labels denotes) denotes word
    rwa [same] at target

theorem encode_of_spells {labels : Labels} {address : Word} {body : List Char} {op : Op}
    {operands : List (List Char)} (spells : Spells body op operands) :
    encode labels address body = encodeOperands labels address op operands := by
  obtain ⟨head, tokens, named⟩ := spells
  have name : String.ofList (head.map Char.toLower) = op.mnemonic := by
    rw [named, String.ofList_toList]
  simp only [encode, tokens, name, op.mnemonic_ne_nop, ↓reduceIte,
    Op.ofMnemonic?_eq_some_iff.mpr rfl]

/-- A body with an encoding is idle or an instruction. -/
theorem idles_or_spells {labels : Labels} {address w : Word} {body : List Char}
    (encoded : encode labels address body = .ok w) :
    (Idles body ∧ w = 0) ∨ ∃ op operands, Spells body op operands := by
  unfold encode at encoded
  split at encoded
  · rename_i tokens
    exact .inl ⟨.inl tokens, (Except.ok.inj encoded).symm⟩
  · rename_i head operands tokens
    simp only at encoded
    split at encoded
    · rename_i named
      split at encoded
      · rename_i alone
        subst alone
        have idles : Idles body := .inr ⟨head, tokens, by simpa using congrArg String.toList named⟩
        exact .inl ⟨idles, (Except.ok.inj encoded).symm⟩
      · contradiction
    · split at encoded
      · rename_i op known
        exact .inr ⟨op, operands, head, tokens, Op.eq_of_ofMnemonic? known⟩
      · contradiction

theorem means_of_encode {labels : Labels} {address w : Word} {body : List Char}
    (only_labels : ∀ label address, labels[label]? = some address → isLabel label)
    (encoded : encode labels address body = .ok w) : Means body w := by
  rcases idles_or_spells encoded with ⟨idles, rfl⟩ | ⟨op, operands, spells⟩
  · exact .idle idles
  · rw [encode_of_spells spells] at encoded
    obtain ⟨i, raw, rfl, fits⟩ := fits_of_encodeOperands only_labels encoded
    exact .instruction spells (Instruction.decode_eq_ok_iff.mpr raw) fits

theorem Means.decodes {body : List Char} {w : Word} (means : Means body w) :
    ∃ i, Instruction.decode w = .ok i := by
  cases means with
  | idle => exact ⟨⟨0, .sll, rfl⟩, Instruction.decode_eq_ok_iff.mpr rfl⟩
  | instruction _ decodes _ => exact ⟨_, decodes⟩

theorem forall₂_means {source : List Char} {base : Word} {words : List Word}
    (assembled : assemble source base = .ok words) :
    List.Forall₂ Means (bodies (lines source)) words := by
  refine List.forall₂_iff_get.mpr ⟨length_of_assemble assembled, fun i inside inside' => ?_⟩
  have encoded := encode_of_assemble assembled (List.getElem?_eq_getElem inside)
    (List.getElem?_eq_getElem inside')
  exact means_of_encode (fun _ _ => isLabel_of_labels) encoded

theorem decodes_of_assemble {source : List Char} {base : Word} {words : List Word}
    (assembled : assemble source base = .ok words) :
    ∀ w ∈ words, ∃ i, Instruction.decode w = .ok i := by
  have means := forall₂_means assembled
  intro w member
  obtain ⟨i, inside, rfl⟩ := List.getElem_of_mem member
  exact (means.get (means.length_eq ▸ inside) inside).decodes

end Assembly

namespace CodeMemory

theorem checkStart_ne_decode (m : CodeMemory) (start : Word) (index : Nat) (address : Word)
    (cause : DecodeError) : m.checkStart start ≠ .error (.decode index address cause) := by
  unfold checkStart
  split
  · simp
  · split <;> simp

/-- No word is in the way of a program that decodes. -/
theorem loadWords_ne_decode {words : List Word}
    (decodes : ∀ w ∈ words, ∃ i, Instruction.decode w = .ok i) (m : CodeMemory) (start : Word)
    (index : Nat) (address : Word) (cause : DecodeError) :
    m.loadWords words start ≠ .error (.decode index address cause) := by
  have program : ∃ program, decodeAt start words = .ok program := by
    refine exists_mapM_eq_ok fun ⟨w, i⟩ member => ?_
    obtain ⟨inst, decoded⟩ := decodes w (List.fst_mem_of_mem_zipIdx member)
    exact ⟨(start + Word.ofIndex i, inst), by simp [decoded]⟩
  obtain ⟨program, decoded⟩ := program
  unfold loadWords
  rw [decoded]
  cases checked : m.checkStart start with
  | error e =>
    intro failed
    obtain rfl := Except.error.inj failed
    exact checkStart_ne_decode m start index address cause checked
  | ok =>
    by_cases nothing : words = []
    · simp [nothing, bind, Except.bind, throw, throwThe, MonadExceptOf.throw]
    · simp [nothing, bind, Except.bind, pure, Except.pure]

theorem loadText_ne_decode (m : CodeMemory) (text : List Char) (start : Word) (index : Nat)
    (address : Word) (cause : DecodeError) :
    m.loadText .assembly text start ≠ .error (.decode index address cause) := by
  unfold loadText
  cases checked : m.checkStart start with
  | error e =>
    intro failed
    obtain rfl := Except.error.inj failed
    exact checkStart_ne_decode m start index address cause checked
  | ok =>
    cases assembled : Assembly.assemble text start with
    | error diagnostics =>
      simp [SourceFormat.words, SourceFormat.assemble, assembled, Except.mapError, bind,
        Except.bind]
    | ok words =>
      have loads := loadWords_ne_decode (Assembly.decodes_of_assemble assembled) m start
        index address cause
      simpa [SourceFormat.words, SourceFormat.assemble, assembled, Except.mapError, bind,
        Except.bind] using loads

end CodeMemory

namespace Assembly

/-- Assembled words decode to what was written, one word to each line that holds an instruction,
and so no assembled program is refused for a word that encodes nothing. -/
theorem assembled_means :
    (∀ source base words, assemble source base = .ok words →
      List.Forall₂ Means (bodies (lines source)) words ∧
        ∀ w ∈ words, ∃ i, Instruction.decode w = .ok i) ∧
    ∀ (m : Machine) (text : List Char) (start : Word) (index : Nat) (address : Word)
      (cause : DecodeError),
      m.loadText .assembly text start ≠ .error (.decode index address cause) := by
  constructor
  · intro source base words assembled
    exact ⟨forall₂_means assembled, decodes_of_assemble assembled⟩
  · intro m text start index address cause failed
    unfold Machine.loadText at failed
    cases loaded : m.code.loadText .assembly text start with
    | error e =>
      rw [loaded] at failed
      obtain rfl := Except.error.inj failed
      exact m.code.loadText_ne_decode text start index address cause loaded
    | ok result =>
      rw [loaded] at failed
      contradiction

def everyLayout : List Char :=
  ("sum: ADD $t0, $zero, $ra # labelled\n sll $t1,$t0,4\n jr $31\n\n, ,\n ORI $t0 $t1 0xFFFF\n"
    ++ "lw $8 ($sp)\n sw $8, -4($sp)\nback:\n NOP\n bne $t0 $0 -3\n j 0x4000001").toList

def everyLayoutWords : List Word :=
  [0x001F4020, 0x00084900, 0x03E00008, 0, 0x3528FFFF, 0x8FA80000, 0xAFA8FFFC, 0, 0x1500FFFD,
   0x08000001]

theorem assembled_means_everyLayout :
    assemble everyLayout 0x40 = .ok everyLayoutWords ∧
      List.Forall₂ Means (bodies (lines everyLayout)) everyLayoutWords ∧
      ∀ w ∈ everyLayoutWords, ∃ i, Instruction.decode w = .ok i := by
  have assembled : assemble everyLayout 0x40 = .ok everyLayoutWords := by decide +kernel
  exact ⟨assembled, assembled_means.1 everyLayout 0x40 everyLayoutWords assembled⟩

end Assembly

end MipsPipeline
