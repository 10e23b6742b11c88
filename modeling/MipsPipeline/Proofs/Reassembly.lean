import MipsPipeline.Proofs.Encoding
import MipsPipeline.Proofs.Printing
import MipsPipeline.Proofs.Quantity

/-
Disassembled programs, assembled again. Every instruction comes back with the fields that it does
not use set to zero, but for jumps: they are written as byte addresses and read as word addresses.
-/
namespace MipsPipeline

namespace Instruction

open Assembly

variable (i : Instruction)

/-- The word with the fields that its operation does not use set to zero. -/
def cleared : Word :=
  match i.op.layout with
  | .threeRegisters => Word.ofRegisterFields i.rs i.rt i.rd 0 i.funct
  | .shift => Word.ofRegisterFields 0 i.rt i.rd i.shamt.toNat i.funct
  | .oneRegister => Word.ofRegisterFields i.rs 0 0 0 i.funct
  | .immediate | .memory | .branch | .jump => i.raw

/-- The fields that the operation does not use are zero. -/
def IsClear : Prop :=
  match i.op.layout with
  | .threeRegisters => i.raw.shamt = 0
  | .shift => i.raw.rs = 0
  | .oneRegister => i.raw.rt = 0 ∧ i.raw.rd = 0 ∧ i.raw.shamt = 0
  | .immediate | .memory | .branch | .jump => True

variable {i}

theorem raw_opcode_of_register (format : i.format = .register) : i.raw.opcode = 0 := by
  rw [← i.encodes.1, Op.opcode_of_register format]

theorem cleared_eq_raw_iff : i.cleared = i.raw ↔ i.IsClear := by
  have fields (format : i.format = .register) := Word.ofRegisterFields_eq_iff
    (raw_opcode_of_register format)
  unfold cleared IsClear
  cases layout : i.op.layout
  case threeRegisters =>
    have format : i.format = .register := by rw [Instruction.format, Op.format, layout]
    simp [funct, fields format, rs, rt, rd, eq_comm]
  case shift =>
    have format : i.format = .register := by rw [Instruction.format, Op.format, layout]
    simp [funct, fields format, rt, rd, toNat_shamt, eq_comm]
  case oneRegister =>
    have format : i.format = .register := by rw [Instruction.format, Op.format, layout]
    simp [funct, fields format, rs, eq_comm]
  all_goals simp

theorem cleared_of_not_register (format : i.format ≠ .register) : i.cleared = i.raw := by
  unfold Instruction.format Op.format at format
  unfold cleared
  cases layout : i.op.layout <;> simp only [layout, ne_eq, not_true_eq_false] at format
  all_goals rfl

theorem exists_cleared (format : i.format = .register) :
    ∃ rs rt rd shamt, i.cleared = Word.ofRegisterFields rs rt rd shamt i.funct := by
  unfold Instruction.format Op.format at format
  unfold cleared
  cases layout : i.op.layout <;> simp only [layout, reduceCtorEq] at format
  all_goals exact ⟨_, _, _, _, rfl⟩

variable (i)

/-- What the assembler makes of the text of the instruction. -/
def reassembled : Word :=
  match i.format with
  | .jump => Word.ofJumpFields i.opcode (4 * i.target.toNat)
  | .register | .immediate => i.cleared

variable {i} in
theorem reassembled_of_not_jump (format : i.format ≠ .jump) : i.reassembled = i.cleared := by
  unfold reassembled
  split
  · contradiction
  all_goals rfl

theorem encodes_reassembled : Op.Encodes i.reassembled i.op := by
  unfold reassembled
  cases format : i.format with
  | register =>
    obtain ⟨rs, rt, rd, shamt, fields⟩ := exists_cleared format
    simp only [fields]
    refine ⟨?_, ?_⟩
    · rw [Word.opcode_ofRegisterFields, Op.opcode_of_register format]
    · rw [Word.funct_ofRegisterFields, funct, BitVec.ofNat_toNat, BitVec.setWidth_eq, i.encodes.2]
  | immediate =>
    have raw : i.cleared = i.raw := cleared_of_not_register (by rw [format]; decide)
    simp only [raw]
    exact i.encodes
  | jump =>
    apply Op.ofWord?_eq_some_iff.mp
    apply Op.ofWord?_of_opcode
    · intro register
      exact absurd (format.symm.trans register) (by decide)
    · rw [Word.opcode_ofJumpFields, opcode, BitVec.ofNat_toNat, BitVec.setWidth_eq, i.encodes.1]

theorem spells_assembly {i : Instruction} (something : ¬ i.IsNop) :
    Spells (Text.trim i.assembly.toList) i.op (i.operandTexts.map String.toList) := by
  refine ⟨i.op.mnemonic.toList, ?_, i.op.mnemonic_lower⟩
  rw [Text.tokens_trim isOperandSeparator_of_isBlank, tokens_assembly something,
    flatMap_tokens_operands]

section Operands

theorem imm_bounds (format : i.format = .immediate) :
    -32768 ≤ i.imm.toInt ∧ i.imm.toInt ≤ 65535 ∧ (¬ i.op.ZeroExtends → i.imm.toInt ≤ 32767) := by
  have small := i.raw.imm.isLt
  have low := BitVec.le_toInt i.raw.imm
  have high := BitVec.toInt_lt (x := i.raw.imm)
  rw [i.toInt_imm format]
  split
  · rename_i zero
    refine ⟨by omega, by omega, fun sign => absurd zero sign⟩
  · omega

/-- The immediate has the bits of its field. -/
theorem ofInt_imm (format : i.format = .immediate) : BitVec.ofInt 16 i.imm.toInt = i.raw.imm := by
  rw [i.toInt_imm format]
  split
  · rw [BitVec.ofInt_natCast, BitVec.ofNat_toNat, BitVec.setWidth_eq]
  · exact BitVec.ofInt_toInt

theorem ofImmediateFields_eq_raw (format : i.format = .immediate) :
    Word.ofImmediateFields i.op.opcode.toNat i.rs i.rt (fieldOf 16 i.imm.toInt) = i.raw := by
  apply Word.ext_immediateFields
  · simp [i.encodes.1]
  · simp [rs]
  · simp [rt]
  · rw [Word.imm_ofImmediateFields, ofNat_fieldOf, i.ofInt_imm format]

theorem funct_of_register (format : i.format = .register) :
    (i.op.funct?.getD 0).toNat = i.funct := by
  obtain ⟨code, some_code⟩ := Option.isSome_iff_exists.mp (i.op.funct?_isSome_iff.mpr format)
  have same := i.encodes.2
  rw [some_code, Option.getD_some] at same ⊢
  rw [same, funct]

theorem register_name {r : Nat} (inside : r < Register.count) :
    register (Register.name r).toList = .ok r :=
  register_eq_ok_iff.mpr (Register.index?_name inside)

variable {labels : Labels} {address : Word}
  (only_labels : ∀ label address, labels[label]? = some address → isLabel label)

include only_labels

theorem encodeOperands_operandTexts :
    encodeOperands labels address i.op (i.operandTexts.map String.toList) = .ok i.reassembled := by
  have rs := register_name i.rs_lt
  have rt := register_name i.rt_lt
  have rd := register_name i.rd_lt
  have imm (format : i.format = .immediate) :
      halfword (toString i.imm.toInt).toList = .ok i.imm.toInt := by
    obtain ⟨low, high, -⟩ := i.imm_bounds format
    exact integerWithin_of_denotes (denotes_toString _) (by omega) low high
  -- In each layout the operands are read back one by one, and the word is put together from them.
  cases layout : i.op.layout
  case threeRegisters =>
    have format : i.format = .register := by rw [Instruction.format, Op.format, layout]
    simp only [encodeOperands, operandTexts, operands, layout, List.map_cons, List.map_nil, rd, rs,
      rt, i.funct_of_register format, reassembled, format, cleared]
    rfl
  case shift =>
    have format : i.format = .register := by rw [Instruction.format, Op.format, layout]
    have small := i.raw.shamt.isLt
    have written : shiftAmount (toString i.shamt.toNat).toList = .ok (i.shamt.toNat : Int) := by
      rw [toNat_shamt]
      exact integerWithin_of_denotes (denotes_repr _) (by omega) (by omega) (by omega)
    have field : fieldOf 5 (i.shamt.toNat : Int) = i.shamt.toNat := by
      rw [fieldOf, BitVec.ofInt_natCast, BitVec.toNat_ofNat, toNat_shamt]
      omega
    simp only [encodeOperands, operandTexts, operands, layout, List.map_cons, List.map_nil, rd, rt,
      written, i.funct_of_register format, reassembled, format, cleared, bind, Except.bind, field]
    rfl
  case oneRegister =>
    have format : i.format = .register := by rw [Instruction.format, Op.format, layout]
    simp only [encodeOperands, operandTexts, operands, layout, List.map_cons, List.map_nil, rs,
      i.funct_of_register format, reassembled, format, cleared]
    rfl
  case immediate =>
    have format : i.format = .immediate := by rw [Instruction.format, Op.format, layout]
    simp only [encodeOperands, operandTexts, operands, layout, List.map_cons, List.map_nil, rt, rs,
      imm format, i.ofImmediateFields_eq_raw format, reassembled, format, cleared, bind,
      Except.bind]
    rfl
  case memory =>
    have format : i.format = .immediate := by rw [Instruction.format, Op.format, layout]
    simp only [encodeOperands, operandTexts, layout, List.map_cons, List.map_nil, rt, rs,
      imm format, i.ofImmediateFields_eq_raw format, reassembled, format, cleared, bind,
      Except.bind]
    rfl
  case branch =>
    have format : i.format = .immediate := by rw [Instruction.format, Op.format, layout]
    obtain ⟨low, -, high⟩ := i.imm_bounds format
    have written : branchOffset labels address (toString i.imm.toInt).toList = .ok i.imm.toInt :=
      branchOffset_of_written only_labels (denotes_toString i.imm.toInt) low
        (high (Op.not_zeroExtends_of_branch layout))
    simp only [encodeOperands, operandTexts, operands, layout, List.map_cons, List.map_nil, rs, rt,
      written, i.ofImmediateFields_eq_raw format, reassembled, format, cleared, bind, Except.bind]
    rfl
  case jump =>
    have format : i.format = .jump := by rw [Instruction.format, Op.format, layout]
    have small := i.target.isLt
    have written := jumpWord_of_written only_labels (denotes_upperHex (4 * i.target.toNat))
      (by omega)
    have fields : Word.ofJumpFields i.op.opcode.toNat (fieldOf 26 (4 * i.target.toNat : Nat)) =
        Word.ofJumpFields i.opcode (4 * i.target.toNat) := by
      rw [Word.ofJumpFields, ofNat_fieldOf, BitVec.ofInt_natCast, i.encodes.1]
      rfl
    simp only [encodeOperands, operandTexts, operands, layout, List.map_cons, List.map_nil,
      written, fields, reassembled, format, bind, Except.bind]
    rfl

/-- The text of an instruction has an encoding wherever it stands. -/
theorem encode_assembly :
    encode labels address (Text.trim i.assembly.toList) = .ok i.reassembled := by
  by_cases nop : i.IsNop
  · rw [eq_of_isNop nop]
    rfl
  · rw [encode_of_spells (spells_assembly nop)]
    exact i.encodeOperands_operandTexts only_labels

end Operands

end Instruction

namespace Assembly

open Instruction (reassembled)

theorem trim_assembly_ne_nil (i : Instruction) : Text.trim i.assembly.toList ≠ [] := by
  intro empty
  have tokens := Text.tokens_trim isOperandSeparator_of_isBlank i.assembly.toList
  rw [empty] at tokens
  by_cases nop : i.IsNop
  · rw [Instruction.assembly, if_pos nop] at tokens
    exact absurd tokens (by decide)
  · rw [Instruction.tokens_assembly nop] at tokens
    contradiction

theorem lines_printed (program : List Instruction) :
    lines (['\n'].intercalate (program.map (·.assembly.toList))) =
      program.map fun i => ⟨[], none, Text.trim i.assembly.toList⟩ := by
  rw [lines, Text.lines_intercalate, List.map_map]
  · exact List.map_congr_left fun i _ => i.ofText_assembly
  · intro text printed
    obtain ⟨i, -, rfl⟩ := List.mem_map.mp printed
    intro empty
    exact trim_assembly_ne_nil i (by rw [empty]; rfl)
  · intro text printed
    obtain ⟨i, -, rfl⟩ := List.mem_map.mp printed
    exact i.unbroken_assembly

theorem bodies_printed (program : List Instruction) :
    bodies (program.map fun i => ⟨[], none, Text.trim i.assembly.toList⟩) =
      program.map fun i => Text.trim i.assembly.toList := by
  rw [bodies, List.map_map]
  refine List.filter_eq_self.mpr ?_
  intro body listed
  obtain ⟨i, -, rfl⟩ := List.mem_map.mp listed
  exact decide_eq_true (trim_assembly_ne_nil i)

theorem assemble_printed (program : List Instruction) (base : Word) :
    assemble (['\n'].intercalate (program.map (·.assembly.toList))) base =
      .ok (program.map reassembled) := by
  rw [assemble_eq_ok_iff]
  constructor
  · intro front line back cut
    have listed : line ∈ lines (['\n'].intercalate (program.map (·.assembly.toList))) :=
      cut ▸ List.mem_append_right front List.mem_cons_self
    rw [lines_printed] at listed
    obtain ⟨i, -, rfl⟩ := List.mem_map.mp listed
    exact ⟨rfl, rfl⟩
  · have written := bodies_printed program
    rw [← lines_printed] at written
    rw [encodings, written]
    apply List.ext_getElem
    · simp
    · intro n inside inside'
      simp only [List.getElem_mapIdx, List.getElem_map]
      exact Instruction.encode_assembly _ fun _ _ => isLabel_of_labels

/-- A word whose operation is no jump comes back with the fields cleared that the operation does not
use; a jump comes back with four times its target, as far as the field holds it. -/
def ComesBackAs (w again : Word) : Prop :=
  ∃ i, Instruction.decode w = .ok i ∧
    (i.format ≠ .jump → again = i.cleared ∧ (again = w ↔ i.IsClear)) ∧
    (i.format = .jump → again.opcode = w.opcode ∧ again.target = 4 * w.target ∧
      (again = w ↔ w.target = 0))

/-- Three is odd, so three times a target is zero for the target zero alone. -/
theorem four_mul_eq_self_iff (target : BitVec 26) : 4 * target = target ↔ target = 0 := by
  constructor
  · intro same
    have difference : 4 * target.toNat - target.toNat = 3 * target.toNat := by omega
    have numbers : 4 * target.toNat % 67108864 = target.toNat := congrArg BitVec.toNat same
    have thrice := Nat.dvd_sub_mod (n := 67108864) (4 * target.toNat)
    rw [numbers, difference] at thrice
    have whole := Nat.Coprime.dvd_of_dvd_mul_left (by decide : Nat.Coprime 67108864 3) thrice
    exact BitVec.eq_of_toNat_eq (Nat.eq_zero_of_dvd_of_lt whole target.isLt)
  · rintro rfl
    decide

theorem comesBackAs_reassembled (i : Instruction) : ComesBackAs i.raw i.reassembled := by
  refine ⟨i, i.decode_raw, ?_, ?_⟩
  · intro format
    rw [Instruction.reassembled_of_not_jump format]
    exact ⟨rfl, Instruction.cleared_eq_raw_iff⟩
  · intro format
    have opcode : i.reassembled.opcode = i.raw.opcode := by
      simp [reassembled, format, Instruction.opcode]
    have target : i.reassembled.target = 4 * i.raw.target := by
      simp only [reassembled, format, Word.target_ofJumpFields, Instruction.target]
      rw [BitVec.ofNat_mul, BitVec.ofNat_toNat, BitVec.setWidth_eq]
      rfl
    refine ⟨opcode, target, ?_⟩
    have unchanged : i.reassembled = i.raw ↔ 4 * i.raw.target = i.raw.target := by
      rw [← target]
      constructor
      · intro same
        rw [same]
      · exact Word.ext_jumpFields opcode
    rw [unchanged]
    exact four_mul_eq_self_iff i.raw.target

theorem exists_program {words : List Word}
    (decodes : ∀ w ∈ words, ∃ i, Instruction.decode w = .ok i) :
    ∃ program : List Instruction, words = program.map (·.raw) := by
  induction words with
  | nil => exact ⟨[], rfl⟩
  | cons w rest ih =>
    obtain ⟨i, decoded⟩ := decodes w List.mem_cons_self
    obtain ⟨program, rfl⟩ := ih fun v member => decodes v (List.mem_cons_of_mem w member)
    exact ⟨i :: program, by rw [List.map_cons, Instruction.decode_eq_ok_iff.mp decoded]⟩

/-- Instructions of one text are the same operation with the same fields in use. -/
theorem cleared_of_assembly {i j : Instruction} (same : i.assembly = j.assembly) :
    i.op = j.op ∧ i.cleared = j.cleared := by
  have no_labels : ∀ (label : List Char) (address : Word), ({} : Labels)[label]? = some address →
      isLabel label := by simp
  have again : i.reassembled = j.reassembled := by
    have first : encode {} 0 (Text.trim i.assembly.toList) = .ok i.reassembled :=
      i.encode_assembly no_labels
    have second : encode {} 0 (Text.trim j.assembly.toList) = .ok j.reassembled :=
      j.encode_assembly no_labels
    rw [same] at first
    exact Except.ok.inj (first.symm.trans second)
  have op : i.op = j.op :=
    Op.encodes_unique i.encodes_reassembled (again ▸ j.encodes_reassembled)
  have format : j.format = i.format := by rw [Instruction.format, Instruction.format, op]
  refine ⟨op, ?_⟩
  by_cases jump : i.format = .jump
  · -- A jump does not keep its target on the way back, so here the texts are compared.
    have target := Instruction.target_of_assembly op jump same
    rw [Instruction.cleared_of_not_register (by rw [jump]; decide),
      Instruction.cleared_of_not_register (by rw [format, jump]; decide)]
    apply Word.ext_jumpFields _ target
    rw [← i.encodes.1, ← j.encodes.1, op]
  · rw [← Instruction.reassembled_of_not_jump jump, again,
      Instruction.reassembled_of_not_jump (by rwa [format])]

/-- Words that decode come back from their texts, each to its own place, and two words of one text
differ at most in fields that their operation does not use. -/
theorem disassembly_reassembles :
    (∀ (words : List Word) (base : Word), (∀ w ∈ words, ∃ i, Instruction.decode w = .ok i) →
      ∃ again, assemble ("\n".intercalate (words.map Word.assembly)).toList base = .ok again ∧
        List.Forall₂ ComesBackAs words again) ∧
    ∀ (v w : Word) (i j : Instruction),
      Instruction.decode v = .ok i → Instruction.decode w = .ok j →
      v.assembly = w.assembly → i.op = j.op ∧ i.cleared = j.cleared := by
  constructor
  · intro words base decodes
    obtain ⟨program, rfl⟩ := exists_program decodes
    have text : ("\n".intercalate ((program.map (·.raw)).map Word.assembly)).toList =
        ['\n'].intercalate (program.map (·.assembly.toList)) := by
      rw [String.toList_intercalate, List.map_map, List.map_map]
      congr 1
      exact List.map_congr_left fun i _ => congrArg String.toList i.assembly_raw
    refine ⟨program.map reassembled, ?_, ?_⟩
    · rw [text, assemble_printed]
    · rw [List.forall₂_map_left_iff, List.forall₂_map_right_iff]
      exact List.forall₂_same.mpr fun i _ => comesBackAs_reassembled i
  · intro v w i j decoded decoded' same
    rw [← Instruction.decode_eq_ok_iff.mp decoded, ← Instruction.decode_eq_ok_iff.mp decoded',
      Instruction.assembly_raw, Instruction.assembly_raw] at same
    exact cleared_of_assembly same

/-- The first word has bits in a field that it does not use, the second is a jump. -/
theorem disassembly_reassembles_unusedField :
    (∃ again, assemble "add $t2, $t0, $t1\njal 0x1C\nlw $t2, -4($sp)\nnop".toList 0 = .ok again ∧
      List.Forall₂ ComesBackAs [0x01095060, 0x0C000007, 0x8FAAFFFC, 0] again) ∧
    ∃ i j, Instruction.decode 0x01095060 = .ok i ∧ Instruction.decode 0x01095020 = .ok j ∧
      i.op = j.op ∧ i.cleared = j.cleared := by
  constructor
  · have decodes : ∀ w ∈ ([0x01095060, 0x0C000007, 0x8FAAFFFC, 0] : List Word),
        ∃ i, Instruction.decode w = .ok i := by
      intro w member
      simp only [List.mem_cons, List.not_mem_nil, or_false] at member
      rcases member with rfl | rfl | rfl | rfl <;>
        exact Instruction.exists_decode_iff.mpr (by decide)
    have text : "\n".intercalate
        (([0x01095060, 0x0C000007, 0x8FAAFFFC, 0] : List Word).map Word.assembly) =
          "add $t2, $t0, $t1\njal 0x1C\nlw $t2, -4($sp)\nnop" := by decide +kernel
    rw [← text]
    exact disassembly_reassembles.1 _ 0 decodes
  · have same : (0x01095060 : Word).assembly = (0x01095020 : Word).assembly := by decide +kernel
    obtain ⟨i, decoded⟩ :=
      Instruction.exists_decode_iff.mpr (by decide : (Op.ofWord? 0x01095060).isSome)
    obtain ⟨j, decoded'⟩ :=
      Instruction.exists_decode_iff.mpr (by decide : (Op.ofWord? 0x01095020).isSome)
    exact ⟨i, j, decoded, decoded', disassembly_reassembles.2 _ _ i j decoded decoded' same⟩

end Assembly

end MipsPipeline
