import MipsPipeline.Proofs.Labels

/-
A program at two bases. Every label moves with the base, so branches are the same at both, faults
are the same, and just the jumps to labels differ, by as many words as the base was moved.
-/
namespace MipsPipeline

/-- Moving an address by words moves the word index, as far as a jump target can hold it. -/
theorem Word.ofInt_index_add (address : Word) (d : Int) :
    BitVec.ofInt 26 (address + BitVec.ofInt 32 (4 * d)).index =
      BitVec.ofInt 26 address.index + BitVec.ofInt 26 d := by
  rw [← BitVec.ofInt_add]
  apply BitVec.eq_of_toNat_eq
  simp only [BitVec.toNat_ofInt, BitVec.toNat_add, index, bytes]
  omega

namespace Assembly

/-- The same labels, all of them moved. -/
def Moved (delta : Word) (labels labels' : Labels) : Prop :=
  ∀ label : List Char, labels'[label]? = labels[label]?.map (· + delta)

section Placement

variable (base delta : Word) (lines : List Line)

theorem lastLabelAt_add (label : List Char) (address : Word) :
    LastLabelAt (base + delta) lines label (address + delta) ↔
      LastLabelAt base lines label address := by
  have shift (n : Nat) : address + delta = base + delta + Word.ofIndex n ↔
      address = base + Word.ofIndex n := by
    rw [BitVec.add_assoc, BitVec.add_comm delta, ← BitVec.add_assoc, BitVec.add_left_inj]
  simp only [LastLabelAt, shift]

theorem moved_ofLines :
    Moved delta (Placement.ofLines base lines).labels
      (Placement.ofLines (base + delta) lines).labels := by
  intro label
  apply Option.ext
  intro address
  rw [Placement.labels_ofLines, Option.map_eq_some_iff]
  constructor
  · intro defined
    refine ⟨address - delta, ?_, BitVec.sub_add_cancel address delta⟩
    rw [Placement.labels_ofLines, ← lastLabelAt_add base delta, BitVec.sub_add_cancel]
    exact defined
  · rintro ⟨original, defined, rfl⟩
    rw [Placement.labels_ofLines] at defined
    exact (lastLabelAt_add base delta lines label original).mpr defined

/-- Which labels are repeated is a matter of their names alone. -/
theorem foldl_define_congr {address address' : Word} (names : List (List Char)) :
    ∀ known known' : Labels × Array (List Char),
      (∀ label, known.1.contains label = known'.1.contains label) → known.2 = known'.2 →
      (names.foldl (Placement.define address) known).2 =
        (names.foldl (Placement.define address') known').2 := by
  induction names with
  | nil =>
    intro known known' same_names same_repeated
    exact same_repeated
  | cons name rest ih =>
    intro known known' same_names same_repeated
    rw [List.foldl_cons, List.foldl_cons]
    apply ih
    · intro label
      simp only [Placement.define, Std.TreeMap.contains_insert, same_names]
    · simp only [Placement.define, same_names, same_repeated]

theorem repeated_add (line : Line) :
    (Placement.ofLines (base + delta) lines).repeated line =
      (Placement.ofLines base lines).repeated line := by
  unfold Placement.repeated
  congr 1
  apply foldl_define_congr
  · intro label
    rw [Std.TreeMap.contains_eq_isSome_getElem?, Std.TreeMap.contains_eq_isSome_getElem?,
      moved_ofLines base delta lines label, Option.isSome_map]
  · rfl

end Placement

/-- What a move of the base makes of an encoding: a jump to a label gets another target, and
everything else stays. -/
inductive Relocated (d : Int) (body : List Char) :
    Except Fault Word → Except Fault Word → Prop where
  | fixed {result : Except Fault Word}
      (other : ∀ op label, JumpsTo body op label → ∃ fault, result = .error fault) :
      Relocated d body result result
  | moved {w w' : Word} {op : Op} {label : List Char} (jumps : JumpsTo body op label)
      (opcode : w'.opcode = w.opcode) (target : w'.target = w.target + BitVec.ofInt 26 d) :
      Relocated d body (.ok w) (.ok w')

theorem Relocated.of_ok {d : Int} {body : List Char} {w w' : Word}
    (relocated : Relocated d body (.ok w) (.ok w')) :
    (∀ op label, JumpsTo body op label →
      w'.opcode = w.opcode ∧ w'.target = w.target + BitVec.ofInt 26 d) ∧
    ((∀ op label, ¬ JumpsTo body op label) → w' = w) := by
  cases relocated with
  | fixed other =>
    constructor
    · intro op label jumps
      obtain ⟨fault, impossible⟩ := other op label jumps
      contradiction
    · intro _
      rfl
  | moved jumps opcode target =>
    constructor
    · intro _ _ _
      exact ⟨opcode, target⟩
    · intro none_jumps
      exact absurd jumps (none_jumps _ _)

section Encode

variable {delta address : Word} {labels labels' : Labels}
  (only_labels : ∀ label address, labels[label]? = some address → isLabel label)
  (moved : Moved delta labels labels')

include moved

theorem branchOffset_moved (operand : List Char) :
    branchOffset labels' (address + delta) operand = branchOffset labels address operand := by
  unfold branchOffset
  rw [moved operand]
  cases labels[operand]? with
  | none => rfl
  | some goal =>
    have apart : goal + delta - (address + delta).next = goal - address.next := by
      rw [Word.next_eq, Word.next_eq]
      bv_omega
    simp only [Option.map_some, apart]

theorem jumpWord_moved {operand : List Char} (unknown : labels[operand]? = none) :
    jumpWord labels' operand = jumpWord labels operand := by
  simp only [jumpWord, moved operand, unknown, Option.map_none]

include only_labels

theorem encodeOperands_moved {op : Op} {operands : List (List Char)}
    (other : ∀ label, op.layout = .jump → operands = [label] → ¬ isLabel label) :
    encodeOperands labels' (address + delta) op operands =
      encodeOperands labels address op operands := by
  simp only [encodeOperands, branchOffset_moved moved]
  split
  case h_8 destination layout =>
    have unknown : labels[destination]? = none := by
      cases found : labels[destination]? with
      | none => rfl
      | some goal =>
        exact absurd (only_labels destination goal found) (other destination layout rfl)
    rw [jumpWord_moved moved unknown]
  all_goals rfl

theorem encode_moved {body : List Char} (other : ∀ op label, ¬ JumpsTo body op label) :
    encode labels' (address + delta) body = encode labels address body := by
  unfold encode
  split
  · rfl
  · rename_i head operands tokens
    simp only
    split
    · rfl
    · split
      · rename_i op known
        apply encodeOperands_moved only_labels moved
        rintro label layout rfl is_label
        exact other op label ⟨layout, is_label, head, tokens, Op.eq_of_ofMnemonic? known⟩
      · rfl

variable (address) in
theorem relocated_encode {d : Int} (delta_eq : delta = BitVec.ofInt 32 (4 * d))
    (body : List Char) :
    Relocated d body (encode labels address body) (encode labels' (address + delta) body) := by
  by_cases jumping : ∃ op label, JumpsTo body op label
  · obtain ⟨op, label, jumps⟩ := jumping
    obtain ⟨layout, is_label, spells⟩ := jumps
    rw [encode_of_spells spells, encode_of_spells spells]
    -- A label is defined at both bases or at neither, and where it is not it is no number either.
    cases found : labels[label]? with
    | none =>
      have found' : labels'[label]? = none := by rw [moved label, found, Option.map_none]
      simp only [encodeOperands, layout, jumpWord, found, found']
      cases literal : literalDestination label with
      | error fault => exact .fixed fun _ _ _ => ⟨fault, rfl⟩
      | ok n => exact absurd literal (not_literal is_label n)
    | some goal =>
      have found' : labels'[label]? = some (goal + delta) := by
        rw [moved label, found, Option.map_some]
      simp only [encodeOperands, layout, jumpWord, found, found']
      refine .moved ⟨layout, is_label, spells⟩ ?_ ?_
      · simp only [Word.opcode_ofJumpFields]
      · simp only [Word.target_ofJumpFields, ofNat_fieldOf, delta_eq, Word.ofInt_index_add]
  · have none_jumps : ∀ op label, ¬ JumpsTo body op label := by
      intro op label jumps
      exact jumping ⟨op, label, jumps⟩
    rw [encode_moved only_labels moved none_jumps]
    exact .fixed fun op label jumps => absurd jumps (none_jumps op label)

end Encode

section Assemble

variable (base : Word) (d : Int)

theorem add_ofIndex_moved (delta : Word) (n : Nat) :
    base + delta + Word.ofIndex n = base + Word.ofIndex n + delta := by
  rw [BitVec.add_assoc, BitVec.add_comm delta, BitVec.add_assoc]

section Diagnostics

variable {labels labels' : Labels}
  (only_labels : ∀ label address, labels[label]? = some address → isLabel label)
  (moved : Moved (BitVec.ofInt 32 (4 * d)) labels labels')

include only_labels moved

theorem faults_moved (front : List Line) (line : Line) :
    let p := Placement.behind base front line
    let p' := Placement.behind (base + BitVec.ofInt 32 (4 * d)) front line
    p'.faults (p'.encoded? labels') = p.faults (p.encoded? labels) := by
  simp only [Placed.faults, Placed.encoded?, Placement.behind, repeated_add, add_ofIndex_moved]
  by_cases empty : line.body = []
  · simp only [empty, ↓reduceIte]
  · simp only [empty, ↓reduceIte]
    have relocated := relocated_encode (base + Word.ofIndex (bodies front).length) only_labels
      moved rfl line.body
    generalize encode labels _ line.body = result,
      encode labels' _ line.body = result' at relocated
    cases relocated with
    | fixed => rfl
    | moved => rfl

-- The tables are those of the whole program, so they stay fixed while the lines are taken off.
theorem flatMap_faults_moved (lines : List Line) :
    (Placement.ofLines (base + BitVec.ofInt 32 (4 * d)) lines).placed.toList.flatMap
        (fun q => (q.faults (q.encoded? labels')).map (Diagnostic.mk q.number)) =
      (Placement.ofLines base lines).placed.toList.flatMap
        (fun q => (q.faults (q.encoded? labels)).map (Diagnostic.mk q.number)) := by
  induction lines using List.reverseRecOn with
  | nil => rfl
  | append_singleton front line ih =>
    rw [Placement.placed_concat, Placement.placed_concat, List.flatMap_append,
      List.flatMap_append, ih, List.flatMap_singleton, List.flatMap_singleton,
      faults_moved base d only_labels moved front line]
    rfl

end Diagnostics

variable (source : List Char)

theorem diagnostics_moved :
    (Placement.ofLines (base + BitVec.ofInt 32 (4 * d)) (lines source)).diagnostics =
      (Placement.ofLines base (lines source)).diagnostics :=
  flatMap_faults_moved base d (fun _ _ => isLabel_of_labels)
    (moved_ofLines base _ (lines source)) (lines source)

theorem assemble_error_moved (diagnostics : List Diagnostic) :
    assemble source base = .error diagnostics ↔
      assemble source (base + BitVec.ofInt 32 (4 * d)) = .error diagnostics := by
  rw [assemble_eq, assemble_eq, diagnostics_moved]
  split <;> simp

end Assemble

/-- A program assembles at every word of memory or at none, with the same faults. Only jumps to
labels are different words, and their targets are as far apart as the bases. -/
theorem assemble_moved (source : List Char) (base : Word) (d : Int) :
    (∀ diagnostics, assemble source base = .error diagnostics ↔
      assemble source (base + BitVec.ofInt 32 (4 * d)) = .error diagnostics) ∧
    ∀ words words', assemble source base = .ok words →
      assemble source (base + BitVec.ofInt 32 (4 * d)) = .ok words' →
      words.length = words'.length ∧
      ∀ (i : Nat) (body : List Char) (w w' : Word), (bodies (lines source))[i]? = some body →
        words[i]? = some w → words'[i]? = some w' →
        (∀ op label, JumpsTo body op label →
          w'.opcode = w.opcode ∧ w'.target = w.target + BitVec.ofInt 26 d) ∧
        ((∀ op label, ¬ JumpsTo body op label) → w' = w) := by
  refine ⟨assemble_error_moved base d source, ?_⟩
  intro words words' assembled assembled'
  refine ⟨(length_of_assemble assembled).symm.trans (length_of_assemble assembled'), ?_⟩
  intro i body w w' written word word'
  have encoded := encode_of_assemble assembled written word
  have encoded' := encode_of_assemble assembled' written word'
  have relocated := relocated_encode (base + Word.ofIndex i) (fun _ _ => isLabel_of_labels)
    (moved_ofLines base (BitVec.ofInt 32 (4 * d)) (lines source)) rfl body
  rw [← add_ofIndex_moved, encoded, encoded'] at relocated
  exact relocated.of_ok

theorem assemble_moved_acrossRegions :
    assemble acrossRegions 0 = .ok [0x11000002, 0x08000000, 0x1509FFFD, 0x0C000003] ∧
    assemble acrossRegions (0 + BitVec.ofInt 32 (4 * -1)) =
      .ok [0x11000002, 0x0BFFFFFF, 0x1509FFFD, 0x0C000002] ∧
    (0x0BFFFFFF : Word).opcode = (0x08000000 : Word).opcode ∧
    (0x0BFFFFFF : Word).target = (0x08000000 : Word).target + BitVec.ofInt 26 (-1) := by
  have first : assemble acrossRegions 0 =
      .ok [0x11000002, 0x08000000, 0x1509FFFD, 0x0C000003] := by decide +kernel
  have second : assemble acrossRegions (0 + BitVec.ofInt 32 (4 * -1)) =
      .ok [0x11000002, 0x0BFFFFFF, 0x1509FFFD, 0x0C000002] := by decide +kernel
  have jump : JumpsTo "j top".toList .j "top".toList :=
    ⟨rfl, by decide, "j".toList, by decide +kernel, by decide +kernel⟩
  have words := ((assemble_moved acrossRegions 0 (-1)).2 _ _ first second).2 1
    "j top".toList _ _ (by decide +kernel) rfl rfl
  exact ⟨first, second, words.1 .j _ jump⟩

end Assembly

end MipsPipeline
