import MipsPipeline.Instruction.Decode

/-
Words put together from fields. Each field reads back as what was put in, the table of operations
tells every two of them apart, and so a word put together for an operation decodes to it.
-/
namespace MipsPipeline

namespace Word

section RegisterFields

variable (rs rt rd shamt funct : Nat)

@[simp] theorem opcode_ofRegisterFields : (ofRegisterFields rs rt rd shamt funct).opcode = 0 := by
  rw [opcode_eq, ofRegisterFields]
  repeat rw [BitVec.extractLsb'_append_eq_of_le (by decide)]
  exact BitVec.extractLsb'_eq_self

@[simp] theorem rs_ofRegisterFields :
    (ofRegisterFields rs rt rd shamt funct).rs = BitVec.ofNat 5 rs := by
  rw [rs_eq, ofRegisterFields]
  repeat rw [BitVec.extractLsb'_append_eq_of_le (by decide)]
  exact BitVec.extractLsb'_append_eq_right

@[simp] theorem rt_ofRegisterFields :
    (ofRegisterFields rs rt rd shamt funct).rt = BitVec.ofNat 5 rt := by
  rw [rt_eq, ofRegisterFields]
  repeat rw [BitVec.extractLsb'_append_eq_of_le (by decide)]
  exact BitVec.extractLsb'_append_eq_right

@[simp] theorem rd_ofRegisterFields :
    (ofRegisterFields rs rt rd shamt funct).rd = BitVec.ofNat 5 rd := by
  rw [rd_eq, ofRegisterFields]
  repeat rw [BitVec.extractLsb'_append_eq_of_le (by decide)]
  exact BitVec.extractLsb'_append_eq_right

@[simp] theorem shamt_ofRegisterFields :
    (ofRegisterFields rs rt rd shamt funct).shamt = BitVec.ofNat 5 shamt := by
  rw [shamt_eq, ofRegisterFields, BitVec.extractLsb'_append_eq_of_le (by decide)]
  exact BitVec.extractLsb'_append_eq_right

@[simp] theorem funct_ofRegisterFields :
    (ofRegisterFields rs rt rd shamt funct).funct = BitVec.ofNat 6 funct := by
  rw [funct_eq, ofRegisterFields]
  exact BitVec.extractLsb'_append_eq_right

end RegisterFields

section ImmediateFields

variable (opcode rs rt imm : Nat)

@[simp] theorem opcode_ofImmediateFields :
    (ofImmediateFields opcode rs rt imm).opcode = BitVec.ofNat 6 opcode := by
  rw [opcode_eq, ofImmediateFields]
  repeat rw [BitVec.extractLsb'_append_eq_of_le (by decide)]
  exact BitVec.extractLsb'_eq_self

@[simp] theorem rs_ofImmediateFields :
    (ofImmediateFields opcode rs rt imm).rs = BitVec.ofNat 5 rs := by
  rw [rs_eq, ofImmediateFields]
  repeat rw [BitVec.extractLsb'_append_eq_of_le (by decide)]
  exact BitVec.extractLsb'_append_eq_right

@[simp] theorem rt_ofImmediateFields :
    (ofImmediateFields opcode rs rt imm).rt = BitVec.ofNat 5 rt := by
  rw [rt_eq, ofImmediateFields, BitVec.extractLsb'_append_eq_of_le (by decide)]
  exact BitVec.extractLsb'_append_eq_right

@[simp] theorem imm_ofImmediateFields :
    (ofImmediateFields opcode rs rt imm).imm = BitVec.ofNat 16 imm := by
  rw [imm_eq, ofImmediateFields]
  exact BitVec.extractLsb'_append_eq_right

end ImmediateFields

section JumpFields

variable (opcode target : Nat)

@[simp] theorem opcode_ofJumpFields :
    (ofJumpFields opcode target).opcode = BitVec.ofNat 6 opcode := by
  rw [opcode_eq, ofJumpFields, BitVec.extractLsb'_append_eq_of_le (by decide)]
  exact BitVec.extractLsb'_eq_self

@[simp] theorem target_ofJumpFields :
    (ofJumpFields opcode target).target = BitVec.ofNat 26 target := by
  rw [target_eq, ofJumpFields]
  exact BitVec.extractLsb'_append_eq_right

end JumpFields

/-- The fields of the register format are all there is to a word. -/
theorem ext_registerFields {v w : Word} (opcode : v.opcode = w.opcode) (rs : v.rs = w.rs)
    (rt : v.rt = w.rt) (rd : v.rd = w.rd) (shamt : v.shamt = w.shamt)
    (funct : v.funct = w.funct) : v = w := by
  have parts (u : Word) : u = u.opcode ++ u.rs ++ u.rt ++ u.rd ++ u.shamt ++ u.funct := by
    simp only [opcode_eq, rs_eq, rt_eq, rd_eq, shamt_eq, funct_eq]
    repeat rw [BitVec.extractLsb'_append_extractLsb'_eq_extractLsb' (by rfl)]
    exact BitVec.extractLsb'_eq_self.symm
  rw [parts v, parts w, opcode, rs, rt, rd, shamt, funct]

theorem ofRegisterFields_eq_iff {w : Word} (opcode : w.opcode = 0) (rs rt rd shamt : Nat) :
    ofRegisterFields rs rt rd shamt w.funct.toNat = w ↔
      BitVec.ofNat 5 rs = w.rs ∧ BitVec.ofNat 5 rt = w.rt ∧ BitVec.ofNat 5 rd = w.rd ∧
        BitVec.ofNat 5 shamt = w.shamt := by
  constructor
  · intro same
    rw [← same]
    simp
  · rintro ⟨same_rs, same_rt, same_rd, same_shamt⟩
    apply ext_registerFields
    · rw [opcode_ofRegisterFields, opcode]
    · rw [rs_ofRegisterFields, same_rs]
    · rw [rt_ofRegisterFields, same_rt]
    · rw [rd_ofRegisterFields, same_rd]
    · rw [shamt_ofRegisterFields, same_shamt]
    · rw [funct_ofRegisterFields, BitVec.ofNat_toNat, BitVec.setWidth_eq]

theorem ext_immediateFields {v w : Word} (opcode : v.opcode = w.opcode) (rs : v.rs = w.rs)
    (rt : v.rt = w.rt) (imm : v.imm = w.imm) : v = w := by
  have parts (u : Word) : u = u.opcode ++ u.rs ++ u.rt ++ u.imm := by
    simp only [opcode_eq, rs_eq, rt_eq, imm_eq]
    repeat rw [BitVec.extractLsb'_append_extractLsb'_eq_extractLsb' (by rfl)]
    exact BitVec.extractLsb'_eq_self.symm
  rw [parts v, parts w, opcode, rs, rt, imm]

theorem ext_jumpFields {v w : Word} (opcode : v.opcode = w.opcode) (target : v.target = w.target) :
    v = w := by
  have parts (u : Word) : u = u.opcode ++ u.target := by
    rw [opcode_eq, target_eq, BitVec.extractLsb'_append_extractLsb'_eq_extractLsb' (by rfl)]
    exact BitVec.extractLsb'_eq_self.symm
  rw [parts v, parts w, opcode, target]

end Word

namespace Op

/-- An operation without a function code has an opcode of its own. -/
theorem encodes_unique {w : Word} {op op' : Op} (encodes : Encodes w op)
    (encodes' : Encodes w op') : op = op' := by
  have distinct : ∀ a ∈ all, ∀ b ∈ all, a.opcode = b.opcode →
      a.funct? = none ∨ b.funct? = none ∨ a.funct? = b.funct? → a = b := by decide
  refine distinct op (mem_all op) op' (mem_all op') (encodes.1.trans encodes'.1.symm) ?_
  have functs := encodes.2.trans encodes'.2.symm
  cases funct : op.funct? with
  | none => exact .inl rfl
  | some code =>
    cases funct' : op'.funct? with
    | none => exact .inr (.inl rfl)
    | some code' =>
      rw [funct, funct'] at functs
      exact .inr (.inr (congrArg some functs))

theorem ofWord?_eq_some_iff {w : Word} {op : Op} : ofWord? w = some op ↔ Encodes w op := by
  unfold ofWord?
  constructor
  · intro found
    simpa using List.find?_some found
  · intro encodes
    have listed : (all.find? (Encodes w ·)).isSome :=
      List.find?_isSome.mpr ⟨op, mem_all op, by simpa using encodes⟩
    obtain ⟨op', found⟩ := Option.isSome_iff_exists.mp listed
    have encodes' : Encodes w op' := by simpa using List.find?_some found
    rw [found, encodes_unique encodes encodes']

/-- Just the operations of the register format have a function code, and opcode 0. -/
theorem funct?_isSome_iff (op : Op) : op.funct?.isSome ↔ op.format = .register := by
  cases op <;> decide

theorem opcode_of_register {op : Op} (format : op.format = .register) : op.opcode = 0 := by
  cases op <;> first | rfl | contradiction

theorem layout_of_jump {op : Op} (format : op.format = .jump) : op.layout = .jump := by
  cases op <;> first | rfl | contradiction

theorem ofWord?_ofRegisterFields {op : Op} (format : op.format = .register)
    (rs rt rd shamt : Nat) :
    ofWord? (Word.ofRegisterFields rs rt rd shamt (op.funct?.getD 0).toNat) = some op := by
  obtain ⟨code, funct⟩ := Option.isSome_iff_exists.mp (op.funct?_isSome_iff.mpr format)
  refine ofWord?_eq_some_iff.mpr ⟨?_, ?_⟩
  · rw [Word.opcode_ofRegisterFields, opcode_of_register format]
  · simp [funct]

theorem funct?_eq_none {op : Op} (format : op.format ≠ .register) : op.funct? = none :=
  Option.not_isSome_iff_eq_none.mp (mt op.funct?_isSome_iff.mp format)

theorem ofWord?_of_opcode {op : Op} (format : op.format ≠ .register) {w : Word}
    (opcode : w.opcode = op.opcode) : ofWord? w = some op := by
  refine ofWord?_eq_some_iff.mpr ⟨opcode.symm, ?_⟩
  rw [funct?_eq_none format]
  rfl

end Op

namespace Instruction

theorem decode_raw (i : Instruction) : decode i.raw = .ok i := by
  obtain ⟨w, op, encoded⟩ := i
  unfold decode
  split
  · rename_i op' encoded'
    have same : op = op' := Option.some.inj (encoded.symm.trans encoded')
    subst same
    rfl
  · rename_i missing
    exact absurd (missing.symm.trans encoded) (by simp)

theorem decode_eq_ok_iff {w : Word} {i : Instruction} : decode w = .ok i ↔ i.raw = w := by
  constructor
  · intro decoded
    unfold decode at decoded
    split at decoded
    · exact (Except.ok.inj decoded) ▸ rfl
    · contradiction
  · rintro rfl
    exact i.decode_raw

theorem exists_decode_iff {w : Word} : (∃ i, decode w = .ok i) ↔ (Op.ofWord? w).isSome := by
  constructor
  · rintro ⟨i, decoded⟩
    rw [← decode_eq_ok_iff.mp decoded, i.encoded]
    rfl
  · intro encodes
    obtain ⟨op, encodes⟩ := Option.isSome_iff_exists.mp encodes
    exact ⟨⟨w, op, encodes⟩, decode_eq_ok_iff.mpr rfl⟩

section Forms

variable {op : Op} (rs rt rd shamt imm target : Nat)

/-- An instruction of the register format, by its fields. -/
def ofRegisterForm (format : op.format = .register) : Instruction where
  raw := Word.ofRegisterFields rs rt rd shamt (op.funct?.getD 0).toNat
  op := op
  encoded := Op.ofWord?_ofRegisterFields format rs rt rd shamt

def ofImmediateForm (format : op.format = .immediate) : Instruction where
  raw := Word.ofImmediateFields op.opcode.toNat rs rt imm
  op := op
  encoded := Op.ofWord?_of_opcode (by simp [format]) (by simp)

def ofJumpForm (format : op.format = .jump) : Instruction where
  raw := Word.ofJumpFields op.opcode.toNat target
  op := op
  encoded := Op.ofWord?_of_opcode (by simp [format]) (by simp)

@[simp] theorem raw_ofRegisterForm (format : op.format = .register) :
    (ofRegisterForm rs rt rd shamt format).raw =
      Word.ofRegisterFields rs rt rd shamt (op.funct?.getD 0).toNat := rfl

@[simp] theorem raw_ofImmediateForm (format : op.format = .immediate) :
    (ofImmediateForm rs rt imm format).raw =
      Word.ofImmediateFields op.opcode.toNat rs rt imm := rfl

@[simp] theorem raw_ofJumpForm (format : op.format = .jump) :
    (ofJumpForm target format).raw = Word.ofJumpFields op.opcode.toNat target := rfl

end Forms

theorem encodes (i : Instruction) : Op.Encodes i.raw i.op :=
  Op.ofWord?_eq_some_iff.mp i.encoded

/-- A decoded instruction is its word: the operation goes with it. -/
theorem eq_of_raw {i j : Instruction} (raw : i.raw = j.raw) : i = j :=
  Except.ok.inj (i.decode_raw.symm.trans ((congrArg decode raw).trans j.decode_raw))

theorem eq_of_isNop {i : Instruction} (nop : i.IsNop) : i = ⟨0, .sll, rfl⟩ := eq_of_raw nop

end Instruction

end MipsPipeline
