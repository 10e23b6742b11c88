import MipsPipeline.Proofs.Encoding
import MipsPipeline.Proofs.Quantity
import MipsPipeline.Proofs.Token

/-
Labels as destinations. A branch to a label goes to the address of the label, and one that is too
far for its field is rejected; a jump goes there if the address is in its reach.
-/
namespace MipsPipeline

namespace Word

/-- Words in a row are a multiple of four bytes apart, also by signed distance. -/
theorem exists_distance (base : Word) (m n : Nat) :
    ∃ q : Int, (base + ofIndex m - (base + ofIndex n)).toInt = 4 * q := by
  have whole : (base + ofIndex m - (base + ofIndex n)).toNat % 4 = 0 := by
    simp only [ofIndex_eq, bytes, BitVec.toNat_sub, BitVec.toNat_add, BitVec.toNat_ofNat]
    omega
  refine ⟨(base + ofIndex m - (base + ofIndex n)).toInt / 4, ?_⟩
  rw [BitVec.toInt_eq_toNat_cond]
  split <;> omega

end Word

/-- A jump that has the word of an address as its target goes to the address, if a jump can. -/
theorem Instruction.jumpTarget_eq_iff {i : Instruction} {pc address : Word}
    (target : (i.target.toNat : Int) = address.index % 67108864) :
    i.jumpTarget pc = address ↔ address.Aligned ∧ address.region = pc.next.region := by
  have bounded := address.isLt
  rw [← BitVec.toNat_inj, ← BitVec.toNat_inj, toNat_jumpTarget, Word.toNat_region address]
  unfold Word.index Word.bytes at target
  unfold Word.Aligned Word.bytes
  omega

namespace Assembly

section Unspoilt

variable {base : Word} {front : List Line} {line : Line}

theorem Unspoilt.of_concat (unspoilt : Unspoilt base (front ++ [line])) : Unspoilt base front := by
  intro before line' back cut
  exact unspoilt before line' (back ++ [line]) (by rw [cut, List.append_assoc, List.cons_append])

theorem Unspoilt.fresh (unspoilt : Unspoilt base (front ++ [line])) {label : List Char}
    (member : label ∈ line.labels) : (Placement.ofLines base front).labels[label]? = none :=
  Placement.fresh_of_repeated_eq_nil (unspoilt front line [] rfl).1 member

/-- With no label repeated, every definition is the last. -/
theorem Unspoilt.labels_iff {lines : List Line} (unspoilt : Unspoilt base lines)
    (label : List Char) (address : Word) :
    (Placement.ofLines base lines).labels[label]? = some address ↔
      LabelAt base lines label address := by
  constructor
  · intro found
    obtain ⟨before, line, back, cut, member, -, here⟩ :=
      (Placement.labels_ofLines base lines label address).mp found
    exact ⟨before, line, back, cut, member, here⟩
  · induction lines using List.reverseRecOn with
    | nil =>
      rintro ⟨before, line, back, impossible, -⟩
      simp at impossible
    | append_singleton front line ih =>
      rintro ⟨before, line', back, cut, member, here⟩
      rw [Placement.ofLines_concat, Placement.labels_add]
      rcases concat_eq_append_cons_iff.mp cut with ⟨rfl, rfl, rfl⟩ | ⟨back', rfl, rfl⟩
      · rw [if_pos member, Placement.address_ofLines, here]
      · have early := ih unspoilt.of_concat ⟨before, line', back', rfl, member, here⟩
        -- Defined in front and in the last line again, the label would be repeated.
        split
        · rename_i again
          exact absurd (early.symm.trans (unspoilt.fresh again)) (by simp)
        · exact early

end Unspoilt

/-- The label is defined, and always at this address. -/
def LabelOnlyAt (base : Word) (lines : List Line) (label : List Char) (address : Word) : Prop :=
  ∀ other, LabelAt base lines label other ↔ other = address

theorem Unspoilt.labelOnlyAt {base : Word} {lines : List Line} (unspoilt : Unspoilt base lines)
    {label : List Char} {address : Word}
    (found : (Placement.ofLines base lines).labels[label]? = some address) :
    LabelOnlyAt base lines label address := by
  intro other
  rw [← unspoilt.labels_iff, found, Option.some.injEq, eq_comm]

/-- The body is a branch with a label for its destination. -/
def BranchesTo (body : List Char) (op : Op) (s t label : List Char) : Prop :=
  op.layout = .branch ∧ isLabel label ∧ Spells body op [s, t, label]

def JumpsTo (body : List Char) (op : Op) (label : List Char) : Prop :=
  op.layout = .jump ∧ isLabel label ∧ Spells body op [label]

/-- The signed distance of the goal from the instruction after this address, in bytes, is one that
the 16 bits of an offset in words can hold. -/
def InReach (address goal : Word) : Prop :=
  4 * -32768 ≤ (goal - address.next).toInt ∧ (goal - address.next).toInt ≤ 4 * 32767

instance (address goal : Word) : Decidable (InReach address goal) :=
  inferInstanceAs (Decidable (_ ≤ _ ∧ _ ≤ _))

section Operands

variable {labels : Labels} {address : Word} {destination : List Char}

theorem not_literal (label : isLabel destination) (n : Int) :
    literalDestination destination ≠ .ok n := by
  rw [Ne, literalDestination_eq_ok_iff, integer?_eq_some_iff]
  rintro ⟨denotes, -⟩
  exact denotes.not_isLabel label

theorem branchOffset_of_label {goal : Word} (found : labels[destination]? = some goal) (q : Int)
    (distance : (goal - address.next).toInt = 4 * q) :
    branchOffset labels address destination =
      if -32768 ≤ q ∧ q ≤ 32767 then .ok q
      else .error (.badImmediate (String.ofList destination)) := by
  have words : (4 * q).tdiv Word.bytes = q := Int.mul_tdiv_cancel_left q (by decide)
  simp only [branchOffset, found, distance, words, pure, Except.pure, bind, Except.bind]

end Operands

/-- Whatever goes to an instruction of the program goes a whole number of words. -/
theorem exists_distance_of_labels {base goal : Word} {lines : List Line} {label : List Char}
    (found : (Placement.ofLines base lines).labels[label]? = some goal) (i : Nat) :
    ∃ q : Int, (goal - (base + Word.ofIndex i).next).toInt = 4 * q := by
  obtain ⟨front, line, back, -, -, -, rfl⟩ :=
    (Placement.labels_ofLines base lines label goal).mp found
  rw [Word.next_add_ofIndex]
  exact Word.exists_distance base (bodies front).length (i + 1)

section Assembled

variable {source body label : List Char} {base w : Word} {words : List Word} {i : Nat} {op : Op}
  (assembled : assemble source base = .ok words)
  (written : (bodies (lines source))[i]? = some body) (word : words[i]? = some w)

include assembled written word

theorem branchTarget_of_assemble {s t : List Char} (branches : BranchesTo body op s t label) :
    ∃ inst address, Instruction.decode w = .ok inst ∧
      LabelOnlyAt base (lines source) label address ∧
      inst.branchTarget (base + Word.ofIndex i) = address := by
  obtain ⟨layout, is_label, spells⟩ := branches
  have unspoilt := (assemble_eq_ok_iff.mp assembled).1
  have encoded := encode_of_assemble assembled written word
  rw [encode_of_spells spells] at encoded
  obtain ⟨inst, n, raw, rfl, -, -, offset, carries⟩ := branch_of_encodeOperands layout encoded
  cases found : (Placement.ofLines base (lines source)).labels[label]? with
  | none =>
    simp only [branchOffset, found, bind_eq_ok_iff] at offset
    obtain ⟨m, literal, -⟩ := offset
    exact absurd literal (not_literal is_label m)
  | some goal =>
    obtain ⟨q, distance⟩ := exists_distance_of_labels found i
    rw [branchOffset_of_label found q distance] at offset
    split at offset
    · rename_i near
      obtain rfl := Except.ok.inj offset
      have imm : inst.imm.toInt = q := by
        have exact := carries.2
        rw [if_neg (Op.not_zeroExtends_of_branch layout)] at exact
        exact exact near
      refine ⟨inst, goal, Instruction.decode_eq_ok_iff.mpr raw, unspoilt.labelOnlyAt found, ?_⟩
      unfold Instruction.branchTarget
      rw [Word.shiftLeft_two_of_toInt (distance.trans (by rw [imm])), BitVec.add_comm,
        BitVec.sub_add_cancel]
    · contradiction

theorem jumpTarget_of_assemble (jumps : JumpsTo body op label) :
    ∃ inst address, Instruction.decode w = .ok inst ∧
      LabelOnlyAt base (lines source) label address ∧
      (inst.jumpTarget (base + Word.ofIndex i) = address ↔
        address.Aligned ∧ address.region = (base + Word.ofIndex i).next.region) := by
  obtain ⟨layout, is_label, spells⟩ := jumps
  have unspoilt := (assemble_eq_ok_iff.mp assembled).1
  have encoded := encode_of_assemble assembled written word
  rw [encode_of_spells spells] at encoded
  obtain ⟨inst, n, raw, rfl, goes, target⟩ := jump_of_encodeOperands layout encoded
  unfold jumpWord at goes
  cases found : (Placement.ofLines base (lines source)).labels[label]? with
  | none =>
    rw [found] at goes
    exact absurd goes (not_literal is_label n)
  | some goal =>
    rw [found] at goes
    obtain rfl := Except.ok.inj goes
    exact ⟨inst, goal, Instruction.decode_eq_ok_iff.mpr raw, unspoilt.labelOnlyAt found,
      Instruction.jumpTarget_eq_iff target⟩

end Assembled

/-- A branch to a label out of its reach is rejected. -/
theorem assemble_of_far_branch {source s t label : List Char} {base address : Word} {op : Op}
    {front back : List Line} {line : Line} (cut : lines source = front ++ line :: back)
    (branches : BranchesTo line.body op s t label) (first : (Register.index? s).isSome)
    (second : (Register.index? t).isSome)
    (defined : LastLabelAt base (lines source) label address)
    (far : ¬ InReach (base + Word.ofIndex (bodies front).length) address) :
    ∃ diagnostics, assemble source base = .error diagnostics ∧
      ⟨front.length + 1, .badImmediate (String.ofList label)⟩ ∈ diagnostics := by
  obtain ⟨layout, -, spells⟩ := branches
  have something : line.body ≠ [] := by
    intro empty
    obtain ⟨head, tokens, -⟩ := spells
    rw [empty] at tokens
    contradiction
  refine assemble_of_fault cut something ?_
  have found := (Placement.labels_ofLines base (lines source) label address).mpr defined
  obtain ⟨q, distance⟩ := exists_distance_of_labels found (bodies front).length
  have rejected : ¬ (-32768 ≤ q ∧ q ≤ 32767) := by
    unfold InReach at far
    omega
  obtain ⟨rs, first⟩ := Option.isSome_iff_exists.mp first
  obtain ⟨rt, second⟩ := Option.isSome_iff_exists.mp second
  rw [encode_of_spells spells]
  simp only [encodeOperands, layout, register_eq_ok_iff.mpr first, register_eq_ok_iff.mpr second,
    branchOffset_of_label found q distance, rejected, ↓reduceIte, bind, Except.bind]

/-- In an assembled program a branch to a label goes to the address of the label, and a jump does if
the address is aligned and in the region of the jump. A branch that is too far is reported. -/
theorem labels_resolve :
    (∀ source base words i body w, assemble source base = .ok words →
      (bodies (lines source))[i]? = some body → words[i]? = some w →
      (∀ op s t label, BranchesTo body op s t label →
        ∃ inst address, Instruction.decode w = .ok inst ∧
          LabelOnlyAt base (lines source) label address ∧
          inst.branchTarget (base + Word.ofIndex i) = address) ∧
      ∀ op label, JumpsTo body op label →
        ∃ inst address, Instruction.decode w = .ok inst ∧
          LabelOnlyAt base (lines source) label address ∧
          (inst.jumpTarget (base + Word.ofIndex i) = address ↔
            address.Aligned ∧ address.region = (base + Word.ofIndex i).next.region)) ∧
    ∀ source base front line back op s t label address, lines source = front ++ line :: back →
      BranchesTo line.body op s t label →
      (Register.index? s).isSome → (Register.index? t).isSome →
      LastLabelAt base (lines source) label address →
      ¬ InReach (base + Word.ofIndex (bodies front).length) address →
      ∃ diagnostics, assemble source base = .error diagnostics ∧
        ⟨front.length + 1, .badImmediate (String.ofList label)⟩ ∈ diagnostics := by
  refine ⟨?_, ?_⟩
  · intro source base words i body w assembled written word
    constructor
    · intro op s t label branches
      exact branchTarget_of_assemble assembled written word branches
    · intro op label jumps
      exact jumpTarget_of_assemble assembled written word jumps
  · intro source base front line back op s t label address cut branches first second defined far
    exact assemble_of_far_branch cut branches first second defined far

/-- The jump is the last instruction of its region, so its own next instruction is in another. -/
def acrossRegions : List Char :=
  "top: beq $t0, $zero, end\n j top\n bne $t0, $t1, top\nend:\n jal end".toList

/-- A branch over `n` instructions. -/
def branchOver (n : Nat) : List Char :=
  ['\n'].intercalate
    ("bne $t0, $t1, far".toList :: (List.replicate n "nop".toList ++ ["far:".toList]))

theorem lines_branchOver (n : Nat) :
    lines (branchOver n) = Line.ofText "bne $t0, $t1, far".toList ::
      (List.replicate n (Line.ofText "nop".toList) ++ [Line.ofText "far:".toList]) := by
  rw [lines, branchOver, Text.lines_intercalate]
  · simp
  all_goals
    intro text member
    simp only [List.mem_cons, List.mem_append, List.mem_replicate, List.not_mem_nil,
      or_false] at member
    rcases member with rfl | ⟨-, rfl⟩ | rfl <;> decide

theorem lastLabelAt_branchOver (n : Nat) :
    LastLabelAt 0 (lines (branchOver n)) "far".toList (0 + Word.ofIndex (n + 1)) := by
  refine ⟨_ :: List.replicate n _, _, [], lines_branchOver n, by decide +kernel, by simp, ?_⟩
  have number (branch nop : Line) (here : branch.body ≠ []) (between : nop.body ≠ []) :
      (bodies (branch :: List.replicate n nop)).length = n + 1 := by
    simp [bodies, here, between]
  rw [number _ _ (by decide +kernel) (by decide +kernel)]

theorem labels_resolve_acrossRegions :
    (∃ inst address, Instruction.decode 0x11000002 = .ok inst ∧
      LabelOnlyAt 0x0FFFFFF8 (lines acrossRegions) "end".toList address ∧
      inst.branchTarget (0x0FFFFFF8 + Word.ofIndex 0) = address) ∧
    (∃ inst address, Instruction.decode 0x0BFFFFFE = .ok inst ∧
      LabelOnlyAt 0x0FFFFFF8 (lines acrossRegions) "top".toList address ∧
      (inst.jumpTarget (0x0FFFFFF8 + Word.ofIndex 1) = address ↔ address.Aligned ∧
        address.region = ((0x0FFFFFF8 : Word) + Word.ofIndex 1).next.region)) ∧
    ∃ diagnostics, assemble (branchOver 32768) 0 = .error diagnostics ∧
      ⟨1, .badImmediate (String.ofList "far".toList)⟩ ∈ diagnostics := by
  have assembled : assemble acrossRegions 0x0FFFFFF8 =
      .ok [0x11000002, 0x0BFFFFFE, 0x1509FFFD, 0x0C000001] := by decide +kernel
  have branch : BranchesTo "beq $t0, $zero, end".toList .beq "$t0".toList "$zero".toList
      "end".toList := ⟨rfl, by decide, "beq".toList, by decide +kernel, by decide +kernel⟩
  have jump : JumpsTo "j top".toList .j "top".toList :=
    ⟨rfl, by decide, "j".toList, by decide +kernel, by decide +kernel⟩
  have far : BranchesTo (Line.ofText "bne $t0, $t1, far".toList).body .bne "$t0".toList
      "$t1".toList "far".toList :=
    ⟨rfl, by decide, "bne".toList, by decide +kernel, by decide +kernel⟩
  refine ⟨?_, ?_, ?_⟩
  · exact (labels_resolve.1 _ _ _ 0 _ _ assembled (by decide +kernel) rfl).1 _ _ _ _ branch
  · exact (labels_resolve.1 _ _ _ 1 _ _ assembled (by decide +kernel) rfl).2 _ _ jump
  · exact labels_resolve.2 _ 0 [] _ _ _ _ _ _ _ (lines_branchOver 32768) far (by decide +kernel)
      (by decide +kernel) (lastLabelAt_branchOver 32768) (by decide +kernel)

end Assembly

end MipsPipeline
