import MipsPipeline.Proofs.Reassembly

/-
Decoding and encoding are inverse to each other. A word decodes just if its codes are in the tables,
and then the fields that were decoded, put together with the codes of the operation, are the word
again. The other way round every field value comes back cut to the width of its field, however
large it was, and leaves the other fields alone.
-/
namespace MipsPipeline

namespace Op

/-- The operation of two codes, found by branching on the opcode first: only behind opcode 0 the
function code is looked at. -/
def dispatch? (opcode funct : BitVec 6) : Option Op :=
  match opcode with
  | 0x00 => match funct with
    | 0x00 => some .sll
    | 0x02 => some .srl
    | 0x03 => some .sra
    | 0x08 => some .jr
    | 0x20 => some .add
    | 0x22 => some .sub
    | 0x24 => some .and
    | 0x25 => some .or
    | 0x26 => some .xor
    | 0x27 => some .nor
    | 0x2A => some .slt
    | _ => none
  | 0x02 => some .j
  | 0x03 => some .jal
  | 0x04 => some .beq
  | 0x05 => some .bne
  | 0x08 => some .addi
  | 0x0A => some .slti
  | 0x0C => some .andi
  | 0x0D => some .ori
  | 0x23 => some .lw
  | 0x2B => some .sw
  | _ => none

/-- Opcodes of the immediate and of the jump format. -/
def opcodes : List (BitVec 6) := [0x02, 0x03, 0x04, 0x05, 0x08, 0x0A, 0x0C, 0x0D, 0x23, 0x2B]

/-- Function codes of the register format. -/
def functs : List (BitVec 6) :=
  [0x00, 0x02, 0x03, 0x08, 0x20, 0x22, 0x24, 0x25, 0x26, 0x27, 0x2A]

theorem dispatch?_eq_some_iff {opcode funct : BitVec 6} {op : Op} :
    dispatch? opcode funct = some op ↔
      op.opcode = opcode ∧ op.funct?.getD funct = funct := by
  constructor
  · intro found
    unfold dispatch? at found
    split at found
    · split at found <;> cases found <;> exact ⟨rfl, rfl⟩
    all_goals cases found <;> exact ⟨rfl, rfl⟩
  · rintro ⟨rfl, same⟩
    have tabled : dispatch? op.opcode (op.funct?.getD funct) = some op := by cases op <;> rfl
    rwa [same] at tabled

theorem ofWord?_eq_dispatch? (w : Word) : ofWord? w = dispatch? w.opcode w.funct :=
  Option.ext fun _ => ofWord?_eq_some_iff.trans dispatch?_eq_some_iff.symm

theorem codes_listed (op : Op) :
    op.opcode ∈ opcodes ∨
      (op.opcode = 0 ∧ op.funct?.isSome ∧ op.funct?.getD 0 ∈ functs) := by
  cases op <;> decide

theorem isSome_dispatch?_iff {opcode funct : BitVec 6} :
    (dispatch? opcode funct).isSome ↔
      opcode ∈ opcodes ∨ (opcode = 0 ∧ funct ∈ functs) := by
  constructor
  · intro found
    obtain ⟨op, found⟩ := Option.isSome_iff_exists.mp found
    obtain ⟨rfl, same⟩ := dispatch?_eq_some_iff.mp found
    rcases op.codes_listed with listed | ⟨zero, coded, listed⟩
    · exact .inl listed
    · obtain ⟨code, has⟩ := Option.isSome_iff_exists.mp coded
      rw [has, Option.getD_some] at same listed
      exact .inr ⟨zero, same ▸ listed⟩
  · rintro (listed | ⟨rfl, listed⟩)
    · simp only [opcodes, List.mem_cons, List.not_mem_nil, or_false] at listed
      rcases listed with rfl | rfl | rfl | rfl | rfl | rfl | rfl | rfl | rfl | rfl <;> rfl
    · simp only [functs, List.mem_cons, List.not_mem_nil, or_false] at listed
      rcases listed with rfl | rfl | rfl | rfl | rfl | rfl | rfl | rfl | rfl | rfl | rfl <;> rfl

end Op

namespace Word

/-- The codes of the word are in the tables. -/
def Supported (w : Word) : Prop :=
  w.opcode ∈ Op.opcodes ∨ (w.opcode = 0 ∧ w.funct ∈ Op.functs)

/-- The fields of a word from its highest bit down, as the register format has them. -/
def registerFields (w : Word) : List Nat :=
  [w.opcode.toNat, w.rs.toNat, w.rt.toNat, w.rd.toNat, w.shamt.toNat, w.funct.toNat]

def immediateFields (w : Word) : List Nat :=
  [w.opcode.toNat, w.rs.toNat, w.rt.toNat, w.imm.toNat]

def jumpFields (w : Word) : List Nat := [w.opcode.toNat, w.target.toNat]

section Packing

/-- A word of the register format by masks and shifts. -/
def packRegister (rs rt rd shamt funct : Word) : Word :=
  (rs &&& 31) <<< 21 ||| (rt &&& 31) <<< 16 ||| (rd &&& 31) <<< 11 ||| (shamt &&& 31) <<< 6
    ||| (funct &&& 63)

def packImmediate (opcode rs rt imm : Word) : Word :=
  (opcode &&& 63) <<< 26 ||| (rs &&& 31) <<< 21 ||| (rt &&& 31) <<< 16 ||| (imm &&& 65535)

def packJump (opcode target : Word) : Word :=
  (opcode &&& 63) <<< 26 ||| (target &&& 67108863)

/-- A mask of `k` ones keeps the low `k` bits. -/
theorem and_ones (k : Nat) (mask : Word) (inside : k ≤ 32)
    (ones : mask.toNat = Nat.pow 2 k - 1) (x : Word) :
    x &&& mask = (x.setWidth k).setWidth 32 := by
  have mask_le : Nat.pow 2 k ≤ 2 ^ 32 := Nat.pow_le_pow_right (by decide) inside
  have cut : x.toNat % Nat.pow 2 k < Nat.pow 2 k := Nat.mod_lt _ (Nat.pow_pos (by decide))
  apply BitVec.eq_of_toNat_eq
  calc (x &&& mask).toNat
      = x.toNat &&& (Nat.pow 2 k - 1) := by rw [BitVec.toNat_and, ones]
    _ = x.toNat % Nat.pow 2 k := Nat.and_two_pow_sub_one_eq_mod _ _
    _ = x.toNat % Nat.pow 2 k % 2 ^ 32 := (Nat.mod_eq_of_lt (by omega)).symm
    _ = ((x.setWidth k).setWidth 32).toNat := by
        rw [BitVec.toNat_setWidth, BitVec.toNat_setWidth]
        rfl

theorem setWidth_append {m k : Nat} (high : BitVec m) (low : BitVec k) :
    (high ++ low).setWidth 32 = high.setWidth 32 <<< k ||| low.setWidth 32 := by
  ext i
  simp only [BitVec.getElem_setWidth, BitVec.getLsbD_append, BitVec.getElem_or,
    BitVec.getElem_shiftLeft]
  grind

theorem and_fiveOnes (x : Word) : x &&& 31 = (x.setWidth 5).setWidth 32 :=
  and_ones 5 31 (by decide) rfl x

theorem and_sixOnes (x : Word) : x &&& 63 = (x.setWidth 6).setWidth 32 :=
  and_ones 6 63 (by decide) rfl x

theorem packRegister_eq (rs rt rd shamt funct : Word) :
    packRegister rs rt rd shamt funct =
      ofRegisterFields rs.toNat rt.toNat rd.toNat shamt.toNat funct.toNat := by
  -- Seen as 32 bits, an append is a shift and an `or`, field by field.
  rw [← BitVec.setWidth_eq (ofRegisterFields _ _ _ _ _)]
  simp only [ofRegisterFields, packRegister, setWidth_append, BitVec.ofNat_toNat, and_fiveOnes,
    and_sixOnes, BitVec.shiftLeft_or_distrib, ← BitVec.shiftLeft_add]
  simp only [BitVec.setWidth_zero, BitVec.zero_shiftLeft, BitVec.zero_or]

theorem packImmediate_eq (opcode rs rt imm : Word) :
    packImmediate opcode rs rt imm =
      ofImmediateFields opcode.toNat rs.toNat rt.toNat imm.toNat := by
  rw [← BitVec.setWidth_eq (ofImmediateFields _ _ _ _)]
  simp only [ofImmediateFields, packImmediate, setWidth_append, BitVec.ofNat_toNat, and_fiveOnes,
    and_sixOnes, and_ones 16 65535 (by decide) rfl, BitVec.shiftLeft_or_distrib,
    ← BitVec.shiftLeft_add]

theorem packJump_eq (opcode target : Word) :
    packJump opcode target = ofJumpFields opcode.toNat target.toNat := by
  rw [← BitVec.setWidth_eq (ofJumpFields _ _)]
  simp only [ofJumpFields, packJump, setWidth_append, BitVec.ofNat_toNat, and_sixOnes,
    and_ones 26 67108863 (by decide) rfl]

end Packing

/-- Each field of a word of the register format is what was handed in for it, cut to its width. -/
theorem registerFields_ofRegisterFields (rs rt rd shamt funct : Nat) :
    (ofRegisterFields rs rt rd shamt funct).registerFields =
      [0, rs % 32, rt % 32, rd % 32, shamt % 32, funct % 64] := by
  simp [registerFields]

theorem immediateFields_ofImmediateFields (opcode rs rt imm : Nat) :
    (ofImmediateFields opcode rs rt imm).immediateFields =
      [opcode % 64, rs % 32, rt % 32, imm % 65536] := by
  simp [immediateFields]

theorem jumpFields_ofJumpFields (opcode target : Nat) :
    (ofJumpFields opcode target).jumpFields = [opcode % 64, target % 67108864] := by
  simp [jumpFields]

end Word

/-- Values for the fields of all formats, each as large as it may be. -/
structure FieldValues where
  rs : Nat
  rt : Nat
  rd : Nat
  shamt : Nat
  imm : Nat
  target : Nat

/-- The word of an operation, put together in its format with the codes of the operation. -/
def Op.encode (op : Op) (f : FieldValues) : Word :=
  match op.format with
  | .register => Word.ofRegisterFields f.rs f.rt f.rd f.shamt (op.funct?.getD 0).toNat
  | .immediate => Word.ofImmediateFields op.opcode.toNat f.rs f.rt f.imm
  | .jump => Word.ofJumpFields op.opcode.toNat f.target

namespace Instruction

/-- The fields that were decoded; a negative immediate counts as its 32 bits. -/
def values (i : Instruction) : FieldValues where
  rs := i.rs
  rt := i.rt
  rd := i.rd
  shamt := i.shamt.toNat
  imm := i.imm.toNat
  target := i.target.toNat

/-- The instruction has these values in the fields of its format, cut to the widths of the fields;
the immediate is extended from 16 bits as the operation has it. -/
structure Holds (i : Instruction) (f : FieldValues) : Prop where
  rs : i.format ≠ .jump → i.rs = f.rs % 32
  rt : i.format ≠ .jump → i.rt = f.rt % 32
  rd : i.format = .register → i.rd = f.rd % 32
  shamt : i.format = .register → i.shamt.toNat = f.shamt % 32
  imm : i.imm.toInt =
    if i.format ≠ .immediate then 0
    else if i.op.ZeroExtends then (f.imm : Int) % 65536
    else (f.imm : Int).bmod 65536
  target : i.target.toNat = if i.format = .jump then f.target % 67108864 else 0

theorem imm_of_not_immediate {i : Instruction} (format : i.format ≠ .immediate) : i.imm = 0 := by
  unfold imm
  split
  · contradiction
  · rfl
  · rfl

theorem target_of_jump {i : Instruction} (format : i.format = .jump) :
    i.target = i.raw.target := by
  unfold target
  simp only [format]

theorem target_of_not_jump {i : Instruction} (format : i.format ≠ .jump) : i.target = 0 := by
  unfold target
  split
  · contradiction
  · rfl
  · rfl

/-- However the immediate was extended, its low half is the field. -/
theorem setWidth_imm {i : Instruction} (format : i.format = .immediate) :
    i.imm.setWidth 16 = i.raw.imm := by
  unfold imm
  simp only [format]
  split
  · simp
  · ext k
    simp only [BitVec.getElem_setWidth, BitVec.getLsbD_signExtend]
    grind

theorem toInt_imm_of_field {i : Instruction} {n : Nat} (format : i.format = .immediate)
    (field : i.raw.imm = BitVec.ofNat 16 n) :
    i.imm.toInt = if i.op.ZeroExtends then (n : Int) % 65536 else (n : Int).bmod 65536 := by
  rw [i.toInt_imm format, field, ← BitVec.ofInt_natCast, BitVec.toInt_ofInt, BitVec.toNat_ofInt]
  split
  · omega
  · rfl

/-- An instruction put together from its fields again is its word. -/
theorem encode_values (i : Instruction) : i.op.encode i.values = i.raw := by
  unfold Op.encode
  cases format : i.op.format with
  | register =>
    have opcode := raw_opcode_of_register (i := i) format
    simp only [i.funct_of_register format, values, funct]
    rw [Word.ofRegisterFields_eq_iff opcode]
    simp [rs, rt, rd, toNat_shamt]
  | immediate =>
    apply Word.ext_immediateFields
    · simp [i.encodes.1]
    · simp [values, rs]
    · simp [values, rt]
    · rw [Word.imm_ofImmediateFields, ← setWidth_imm format, values, BitVec.ofNat_toNat]
  | jump =>
    apply Word.ext_jumpFields
    · simp [i.encodes.1]
    · rw [Word.target_ofJumpFields, ← target_of_jump format, values, BitVec.ofNat_toNat,
        BitVec.setWidth_eq]

theorem decode_encode (op : Op) (f : FieldValues) :
    ∃ i, decode (op.encode f) = .ok i ∧ i.op = op ∧ i.Holds f := by
  unfold Op.encode
  cases format : op.format with
  | register =>
    refine ⟨ofRegisterForm f.rs f.rt f.rd f.shamt format, decode_eq_ok_iff.mpr rfl, rfl, ?_⟩
    have register : (ofRegisterForm f.rs f.rt f.rd f.shamt format).format = .register := format
    exact {
      rs := fun _ => by simp [rs]
      rt := fun _ => by simp [rt]
      rd := fun _ => by simp [rd]
      shamt := fun _ => by simp [toNat_shamt]
      imm := by simp [imm_of_not_immediate, register]
      target := by simp [target_of_not_jump, register] }
  | immediate =>
    refine ⟨ofImmediateForm f.rs f.rt f.imm format, decode_eq_ok_iff.mpr rfl, rfl, ?_⟩
    have immediate : (ofImmediateForm f.rs f.rt f.imm format).format = .immediate := format
    exact {
      rs := fun _ => by simp [rs]
      rt := fun _ => by simp [rt]
      rd := by simp [immediate]
      shamt := by simp [immediate]
      imm := by simp [toInt_imm_of_field immediate (Word.imm_ofImmediateFields ..), immediate]
      target := by simp [target_of_not_jump, immediate] }
  | jump =>
    refine ⟨ofJumpForm f.target format, decode_eq_ok_iff.mpr rfl, rfl, ?_⟩
    have jump : (ofJumpForm f.target format).format = .jump := format
    exact {
      rs := by simp [jump]
      rt := by simp [jump]
      rd := by simp [jump]
      shamt := by simp [jump]
      imm := by simp [imm_of_not_immediate, jump]
      target := by simp [target_of_jump, jump] }

theorem exists_decode_iff_supported {w : Word} : (∃ i, decode w = .ok i) ↔ w.Supported := by
  rw [exists_decode_iff, Op.ofWord?_eq_dispatch?, Op.isSome_dispatch?_iff]
  rfl

/-- A word that is refused is reported with the code that rules it out. -/
theorem decode_eq_error_iff {w : Word} {e : DecodeError} :
    decode w = .error e ↔ ¬ w.Supported ∧ e = DecodeError.ofWord w := by
  rw [← exists_decode_iff_supported, exists_decode_iff]
  unfold decode
  split
  · rename_i op found
    simp [found]
  · rename_i missing
    simp [missing, eq_comm]

/-- Encoding undoes decoding on the words that decode, and decoding undoes encoding up to the
widths of the fields. What is handed in for one field never shows in another, and the words are
those that masks and shifts make. A word that does not decode is reported by its function code just
if its opcode is 0. -/
theorem decode_encode_inverse :
    (∀ w, (∃ i, decode w = .ok i) ↔ w.Supported) ∧
    (∀ w i, decode w = .ok i →
      Op.dispatch? w.opcode w.funct = some i.op ∧ i.op.encode i.values = w) ∧
    (∀ op f, ∃ i, decode (Op.encode op f) = .ok i ∧ i.op = op ∧ i.Holds f) ∧
    (∀ rs rt rd shamt funct : Nat,
      (Word.ofRegisterFields rs rt rd shamt funct).registerFields =
        [0, rs % 32, rt % 32, rd % 32, shamt % 32, funct % 64]) ∧
    (∀ opcode rs rt imm : Nat,
      (Word.ofImmediateFields opcode rs rt imm).immediateFields =
        [opcode % 64, rs % 32, rt % 32, imm % 65536]) ∧
    (∀ opcode target : Nat,
      (Word.ofJumpFields opcode target).jumpFields = [opcode % 64, target % 67108864]) ∧
    (∀ rs rt rd shamt funct : Word, Word.packRegister rs rt rd shamt funct =
      Word.ofRegisterFields rs.toNat rt.toNat rd.toNat shamt.toNat funct.toNat) ∧
    (∀ opcode rs rt imm : Word, Word.packImmediate opcode rs rt imm =
      Word.ofImmediateFields opcode.toNat rs.toNat rt.toNat imm.toNat) ∧
    (∀ opcode target : Word,
      Word.packJump opcode target = Word.ofJumpFields opcode.toNat target.toNat) ∧
    (∀ w e, decode w = .error e ↔ ¬ w.Supported ∧
      e = if w.opcode = 0 then .unknownFunct w w.funct else .unknownOpcode w w.opcode) := by
  refine ⟨fun w => exists_decode_iff_supported, ?_, decode_encode,
    Word.registerFields_ofRegisterFields, Word.immediateFields_ofImmediateFields,
    Word.jumpFields_ofJumpFields, Word.packRegister_eq, Word.packImmediate_eq, Word.packJump_eq,
    fun w e => decode_eq_error_iff⟩
  intro w i decoded
  obtain rfl := decode_eq_ok_iff.mp decoded
  exact ⟨(Op.ofWord?_eq_dispatch? i.raw).symm.trans i.encoded, i.encode_values⟩

end Instruction

end MipsPipeline
