import MipsPipeline.Proofs.Fields
import MipsPipeline.Proofs.Passage
import MipsPipeline.Proofs.Quantity

/-
The table of instructions, in integers. Instruction words and their addresses are unsigned and
contents are signed; what is written, stored or jumped to is meant modulo `2 ^ 32`. Every word that
decodes has a row, and the datapath does what the row says.
-/
namespace MipsPipeline

structure Row where
  /-- The destination and what is written to it. -/
  write : Option (Nat × Int) := none
  /-- The address and what is stored there. -/
  store : Option (Int × Int) := none
  /-- Where execute sends control. -/
  redirect : Option Int := none
  /-- Where decode sends control. -/
  jump : Option Int := none

namespace Row

open Word (field)

def unsigned (x : Int) : Nat := (x % Word.limit).toNat

/-- The index of the word at an address. -/
def index (address : Int) : Nat := unsigned address / 4

/-- The immediate field as a signed number. -/
def offset (w : Nat) : Int :=
  if field w 0 16 < 32768 then field w 0 16 else field w 0 16 - 65536

/-- The target field in the region of the next instruction. -/
def target (w pc : Nat) : Nat := field (pc + 4) 28 4 * 268435456 + 4 * field w 0 26

/-- The row of an instruction word at the address `pc`, for what is in registers and memory. -/
def ofWord? (w pc : Nat) (register : Nat → Int) (memory : Int → Int) : Option Row :=
  let rt := field w 16 5
  let rd := field w 11 5
  let s := register (field w 21 5)
  let t := register rt
  let scale := Nat.pow 2 (field w 6 5)
  let constant := field w 0 16
  let address := s + offset w
  let branch := pc + 4 + 4 * offset w
  match field w 26 6 with
  | 0x00 => match field w 0 6 with
    | 0x20 => some { write := some (rd, s + t) }
    | 0x22 => some { write := some (rd, s - t) }
    | 0x24 => some { write := some (rd, (unsigned s &&& unsigned t : Nat)) }
    | 0x25 => some { write := some (rd, (unsigned s ||| unsigned t : Nat)) }
    | 0x26 => some { write := some (rd, (unsigned s ^^^ unsigned t : Nat)) }
    | 0x27 => some { write := some (rd, Word.limit - 1 - (unsigned s ||| unsigned t : Nat)) }
    | 0x2A => some { write := some (rd, if s < t then 1 else 0) }
    | 0x00 => some { write := some (rd, t * scale) }
    | 0x02 => some { write := some (rd, unsigned t / scale) }
    | 0x03 => some { write := some (rd, t / scale) }
    | 0x08 => some { redirect := some s }
    | _ => none
  | 0x02 => some { jump := some (target w pc) }
  | 0x03 => some { write := some (31, pc + 4), jump := some (target w pc) }
  | 0x04 => some { redirect := if s = t then some branch else none }
  | 0x05 => some { redirect := if s = t then none else some branch }
  | 0x08 => some { write := some (rt, s + offset w) }
  | 0x0A => some { write := some (rt, if s < offset w then 1 else 0) }
  | 0x0C => some { write := some (rt, (unsigned s &&& constant : Nat)) }
  | 0x0D => some { write := some (rt, (unsigned s ||| constant : Nat)) }
  | 0x23 => some { write := some (rt, memory address) }
  | 0x2B => some { store := some (address, t) }
  | _ => none

/-- The effect that the row asks for. -/
def effect (row : Row) : Effect where
  write := row.write.map fun (register, value) => (register, .ofInt 32 value)
  store := row.store.map fun (address, value) => (.ofInt 32 address, .ofInt 32 value)
  transfer := (row.redirect.or row.jump).map (.ofInt 32)

end Row

/-- The contents of the word at an address; 0 outside memory. -/
def DataMemory.contents (m : DataMemory) (address : Int) : Int :=
  ((m.cells[Row.index address]?).getD 0#32).toInt

namespace Row

variable (a b : Word)

theorem unsigned_toInt : unsigned a.toInt = a.toNat := by
  have bounded := a.isLt
  rw [unsigned, BitVec.toInt_eq_toNat_cond, show Word.limit = 4294967296 from rfl]
  split <;> omega

theorem ofInt_sum : BitVec.ofInt 32 (a.toInt + b.toInt) = a + b := by
  rw [BitVec.ofInt_add, BitVec.ofInt_toInt, BitVec.ofInt_toInt]

theorem ofInt_difference : BitVec.ofInt 32 (a.toInt - b.toInt) = a - b := by
  rw [Int.sub_eq_add_neg, BitVec.ofInt_add, BitVec.ofInt_neg, BitVec.ofInt_toInt,
    BitVec.ofInt_toInt, BitVec.sub_eq_add_neg]

theorem ofInt_complement :
    BitVec.ofInt 32 (Word.limit - 1 - (a.toNat ||| b.toNat : Nat)) = ~~~(a ||| b) := by
  rw [← BitVec.toNat_or]
  apply BitVec.eq_of_toNat_eq
  have bounded := (a ||| b).isLt
  rw [BitVec.toNat_ofInt, BitVec.toNat_not, show Word.limit = 4294967296 from rfl]
  omega

theorem ofInt_scaled (n : Nat) :
    BitVec.ofInt 32 (a.toInt * n) = BitVec.ofNat 32 (a.toNat * n) := by
  rw [BitVec.ofInt_mul, BitVec.ofInt_toInt, BitVec.ofInt_natCast, BitVec.ofNat_mul,
    BitVec.ofNat_toNat, BitVec.setWidth_eq]

theorem ofInt_quotient (m n : Nat) :
    BitVec.ofInt 32 ((m : Int) / n) = BitVec.ofNat 32 (m / n) := by
  rw [← Int.natCast_ediv, BitVec.ofInt_natCast]

theorem ofInt_next : BitVec.ofInt 32 (a.toNat + 4) = a.next := by
  rw [BitVec.ofInt_add, BitVec.ofInt_natCast, BitVec.ofNat_toNat, BitVec.setWidth_eq]
  rfl

theorem index_ofInt (address : Int) : Word.index (.ofInt 32 address) = index address := by
  rw [Word.index, BitVec.toNat_ofInt]
  rfl

theorem load_ofInt (m : DataMemory) (address : Int) :
    m.load (.ofInt 32 address) = .ofInt 32 (m.contents address) := by
  rw [DataMemory.contents, BitVec.ofInt_toInt, DataMemory.load, index_ofInt]

end Row

namespace Instruction

variable (i : Instruction) (pc : Word) (registers : RegisterFile) (data : DataMemory)

variable {i} in
theorem offset_raw (format : i.format = .immediate) (signed : ¬ i.op.ZeroExtends) :
    Row.offset i.raw.toNat = i.imm.toInt := by
  have bounded := i.raw.imm.isLt
  rw [i.toInt_imm format, if_neg signed, Row.offset, ← Word.toNat_imm,
    BitVec.toInt_eq_toNat_cond]
  split <;> split <;> omega

variable {i} in
theorem toNat_imm (format : i.format = .immediate) (zero : i.op.ZeroExtends) :
    i.imm.toNat = Word.field i.raw.toNat 0 16 := by
  have bounded := i.raw.imm.isLt
  simp only [imm, format, if_pos zero]
  rw [BitVec.toNat_setWidth, Word.toNat_imm] at *
  omega

theorem ofInt_branch :
    BitVec.ofInt 32 (pc.toNat + 4 + 4 * i.imm.toInt) = i.branchTarget pc := by
  calc BitVec.ofInt 32 (pc.toNat + 4 + 4 * i.imm.toInt)
      = BitVec.ofInt 32 pc.toNat + BitVec.ofInt 32 4 +
          BitVec.ofInt 32 4 * BitVec.ofInt 32 i.imm.toInt := by
        rw [BitVec.ofInt_add, BitVec.ofInt_add, BitVec.ofInt_mul]
    _ = pc.next + BitVec.twoPow 32 2 * i.imm := by
        rw [BitVec.ofInt_natCast, BitVec.ofNat_toNat, BitVec.setWidth_eq, BitVec.ofInt_toInt]
        rfl
    _ = i.branchTarget pc := by
        rw [BitVec.twoPow_mul_eq_shiftLeft]
        rfl

variable {i} in
theorem ofInt_target (jump : i.op.FixedJump) :
    BitVec.ofInt 32 (Row.target i.raw.toNat pc.toNat) = i.jumpTarget pc := by
  have format : i.format = .jump := by
    rcases jump with op | op <;> rw [format, op] <;> rfl
  have target : i.target.toNat = Word.field i.raw.toNat 0 26 := by
    simp only [target, format]
    exact Word.toNat_target _
  have region : Word.field (pc.toNat + 4) 28 4 = (pc.toNat + 4) / 268435456 % 16 := rfl
  apply BitVec.eq_of_toNat_eq
  rw [BitVec.ofInt_natCast, BitVec.toNat_ofNat, toNat_jumpTarget, Word.toNat_region, target,
    Word.next_eq, BitVec.toNat_add, Row.target, region, show (4#32).toNat = 4 from rfl]
  omega

theorem exists_row : ∃ row,
    Row.ofWord? i.raw.toNat pc.toNat (fun r => (registers.read r).toInt) data.contents = some row ∧
      row.effect = i.effect pc registers data ∧
      if i.op.FixedJump then row.redirect = none else row.jump = none := by
  have opcode : Word.field i.raw.toNat 26 6 = i.op.opcode.toNat := by
    rw [← Word.toNat_opcode, i.encodes.1]
  have funct : (i.op.funct?.getD i.raw.funct).toNat = Word.field i.raw.toNat 0 6 := by
    rw [i.encodes.2, Word.toNat_funct]
  have rs : i.rs = Word.field i.raw.toNat 21 5 := i.raw.toNat_rs
  have rt : i.rt = Word.field i.raw.toNat 16 5 := i.raw.toNat_rt
  have rd : i.rd = Word.field i.raw.toNat 11 5 := i.raw.toNat_rd
  have shamt : i.shamt.toNat = Word.field i.raw.toNat 6 5 :=
    i.toNat_shamt.trans i.raw.toNat_shamt
  -- The codes of the operation pick its row; an equation about words is left for each.
  cases op : i.op <;> rw [op] at opcode funct <;>
    refine ⟨_, by simp only [Row.ofWord?, opcode, ← funct]; rfl, ?_, by simp [Op.FixedJump]⟩
  case add | sub | and | or | xor | nor | slt | sll | srl | sra | jr =>
    simp [-Nat.pow_eq, Row.effect, effect, op, ← rs, ← rt, ← rd, ← shamt, Row.unsigned_toInt,
      Row.ofInt_sum, Row.ofInt_difference, Row.ofInt_complement, Row.ofInt_scaled,
      Row.ofInt_quotient, apply_ite (BitVec.ofInt 32)]
  case j | jal =>
    have target := ofInt_target pc (show i.op.FixedJump by simp [Op.FixedJump, op])
    simp [Row.effect, effect, op, target, Row.ofInt_next, Register.link]
  case beq | bne =>
    have format : i.format = .immediate := by rw [format, op]; rfl
    have offset := offset_raw format (by simp [Op.ZeroExtends, op])
    by_cases same : registers.read i.rs = registers.read i.rt <;>
      simp [Row.effect, effect, op, ← rs, ← rt, offset, ofInt_branch, BitVec.toInt_inj, same]
  case addi | slti | lw | sw =>
    have format : i.format = .immediate := by rw [format, op]; rfl
    have offset := offset_raw format (by simp [Op.ZeroExtends, op])
    simp [Row.effect, effect, op, ← rs, ← rt, offset, Row.ofInt_sum, ← Row.load_ofInt,
      apply_ite (BitVec.ofInt 32)]
  case andi | ori =>
    have format : i.format = .immediate := by rw [format, op]; rfl
    have constant := toNat_imm format (by simp [Op.ZeroExtends, op])
    simp [Row.effect, effect, op, ← rs, ← rt, ← constant, Row.unsigned_toInt]

theorem lt_of_write {r : Nat} {value : Word}
    (write : (i.effect pc registers data).write = some (r, value)) : r < Register.count := by
  rw [← effect_decoded (i.operands_read registers) pc registers data] at write
  simp only [Decoded.effect] at write
  split at write
  · obtain ⟨rfl, -⟩ := Prod.mk.inj (Option.some.inj write)
    exact i.dest_lt
  · contradiction

end Instruction

/-- A passage from these registers and data does what the row says and nothing else. -/
structure Passage.Does (p : Passage) (row : Row) (pc : Word) (registers : RegisterFile)
    (data : DataMemory) : Prop where
  zero : (p.registers registers).read 0 = 0
  written : ∀ r value, row.write = some (r, value) → r ≠ 0 →
    (p.registers registers).read r = .ofInt 32 value
  unwritten : ∀ r, (∀ value, row.write ≠ some (r, value)) →
    (p.registers registers).read r = registers.read r
  size : (p.data data).size = data.size
  stored : ∀ address value, row.store = some (address, value) → Row.index address < data.size →
    (p.data data).cells[Row.index address]? = some (.ofInt 32 value)
  unstored : ∀ n, (∀ address value, row.store = some (address, value) → Row.index address ≠ n) →
    (p.data data).cells[n]? = data.cells[n]?
  redirect : p.execution.redirect = row.redirect.map (.ofInt 32)
  jump : p.decoding.jump = row.jump.map (.ofInt 32)
  next : p.next pc = .ofInt 32 ((row.redirect.or row.jump).getD (pc.toNat + 4))

section

variable {i : Instruction} {pc : Word} {registers : RegisterFile} {data : DataMemory}
  {exMem : Slot Executed} {memWb : Slot Accessed} {p : Passage} {row : Row}

theorem Row.transfers_footprint
    (once : if i.op.FixedJump then row.redirect = none else row.jump = none) :
    (i.footprint row.effect).redirect = row.redirect.map (.ofInt 32) ∧
      (i.footprint row.effect).jump = row.jump.map (.ofInt 32) := by
  by_cases jumps : i.op.FixedJump
  · rw [if_pos jumps] at once
    simp [Instruction.footprint, Row.effect, jumps, once]
  · rw [if_neg jumps] at once
    simp [Instruction.footprint, Row.effect, jumps, once]

namespace Passage

theorem registers_eq (shown : p.footprint = i.footprint row.effect) :
    p.registers registers = match row.write with
      | some (r, value) => registers.write r (.ofInt 32 value)
      | none => registers := by
  have write : p.accessed.write? = row.effect.write.filter (·.1 ≠ 0) :=
    congrArg Footprint.write shown
  rw [Passage.registers, Accessed.retire, write, Row.effect]
  cases row.write with
  | none => rfl
  | some write =>
    by_cases zero : write.1 = 0
    · simp [Option.filter_some, zero, RegisterFile.write]
    · simp [Option.filter_some, zero]

theorem data_eq (shown : p.footprint = i.footprint row.effect) :
    p.data data = match row.store with
      | some (address, value) => data.store (.ofInt 32 address) (.ofInt 32 value)
      | none => data := by
  have store : p.store? = row.effect.store := congrArg Footprint.store shown
  unfold store? Row.effect at store
  rw [Passage.data, Executed.stored]
  cases asked : row.store with
  | none =>
    rw [asked] at store
    split at store
    · contradiction
    · rename_i quiet
      exact if_neg quiet
  | some stored =>
    rw [asked] at store
    split at store
    · rename_i writes
      obtain ⟨address, value⟩ := Prod.mk.inj (Option.some.inj store)
      rw [if_pos writes, address, value]
    · contradiction

theorem does_of_footprint (shown : p.footprint = i.footprint row.effect)
    (inside : ∀ r value, row.write = some (r, value) → r < Register.count)
    (once : if i.op.FixedJump then row.redirect = none else row.jump = none) :
    p.Does row pc registers data := by
  obtain ⟨toRedirect, toJump⟩ := Row.transfers_footprint once
  have redirect : p.execution.redirect = row.redirect.map (.ofInt 32) :=
    (congrArg Footprint.redirect shown).trans toRedirect
  have jump : p.decoding.jump = row.jump.map (.ofInt 32) :=
    (congrArg Footprint.jump shown).trans toJump
  refine ⟨?_, ?_, ?_, ?_, ?_, ?_, redirect, jump, ?_⟩
  · exact RegisterFile.read_zero _
  · intro r value write nonzero
    rw [registers_eq shown, write]
    simp [RegisterFile.read_write, nonzero, inside r value write]
  · intro r other
    rw [registers_eq shown]
    cases write : row.write with
    | none => rfl
    | some written =>
      have differs : written.1 ≠ r := by
        rintro rfl
        exact other written.2 write
      simp [RegisterFile.read_write, differs]
  · rw [data_eq shown]
    cases row.store with
    | none => rfl
    | some stored => exact DataMemory.size_store ..
  · intro address value store here
    rw [data_eq shown, store]
    simp only [DataMemory.store, Row.index_ofInt]
    exact Array.getElem?_setIfInBounds_self_of_lt here
  · intro n other
    rw [data_eq shown]
    cases store : row.store with
    | none => rfl
    | some stored =>
      have differs := other stored.1 stored.2 store
      simp only [DataMemory.store, Row.index_ofInt]
      exact Array.getElem?_setIfInBounds_ne differs
  · rw [next, redirect, jump, ← Row.ofInt_next]
    cases row.redirect with
    | some target => rfl
    | none => cases row.jump <;> rfl

end Passage

/-- The datapath does what the table says of every word that decodes. -/
theorem passage_tabled {w : Word} (decodes : Instruction.decode w = .ok i) (pc : Word)
    (registers : RegisterFile) (data : DataMemory) (nothing : exMem.entry? = none)
    (nothing' : memWb.entry? = none) :
    ∃ row, Row.ofWord? w.toNat pc.toNat (fun r => (registers.read r).toInt) data.contents =
        some row ∧
      (i.passage pc registers data exMem memWb).Does row pc registers data := by
  obtain ⟨row, listed, effect, once⟩ := i.exists_row pc registers data
  obtain rfl := Instruction.decode_eq_ok_iff.mp decodes
  refine ⟨row, listed, Passage.does_of_footprint ?_ ?_ once⟩
  · rw [i.footprint_passage pc registers data nothing nothing', effect]
  · intro r value write
    have written : (i.effect pc registers data).write = some (r, .ofInt 32 value) := by
      rw [← effect, Row.effect, write]
      rfl
    exact i.lt_of_write pc registers data written

end

/-- `sra $t1, $t0, 4`. -/
def shifting : Instruction := ⟨0x00084903, .sra, rfl⟩

/-- Holds -100 in `$t0`. -/
def owing : RegisterFile := RegisterFile.cleared.write 8 (.ofInt 32 (-100))

theorem passage_tabled_shift :
    Instruction.decode 0x00084903 = .ok shifting ∧
      Row.ofWord? 0x00084903 0 (fun r => (owing.read r).toInt) (DataMemory.zeroed 4).contents =
        some { write := some (9, -7) } ∧
      (shifting.passage 0 owing (.zeroed 4) .bubble .empty).Does { write := some (9, -7) } 0 owing
        (.zeroed 4) := by
  have decodes : Instruction.decode 0x00084903 = .ok shifting :=
    Instruction.decode_eq_ok_iff.mpr rfl
  have listed : Row.ofWord? 0x00084903 0 (fun r => (owing.read r).toInt)
      (DataMemory.zeroed 4).contents = some { write := some (9, -7) } := rfl
  have nothing : Slot.entry? (.bubble : Slot Executed) = none := rfl
  have nothing' : Slot.entry? (.empty : Slot Accessed) = none := rfl
  obtain ⟨row, listed', does⟩ := passage_tabled decodes 0 owing (.zeroed 4) nothing nothing'
  obtain rfl := Option.some.inj (listed.symm.trans listed')
  exact ⟨decodes, listed, does⟩

end MipsPipeline
