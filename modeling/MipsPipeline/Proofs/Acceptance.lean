import MipsPipeline.Proofs.Grammar

/-
Which lines an assembled program has. Without its comment and its labels a line is blank or an
instruction as it is documented, or of one of the two kinds that are accepted besides. A program
whose instructions are all as documented is refused only for a bad or repeated label, a branch to a
label out of its reach, or a jump to a number that is out of all range.
-/
namespace MipsPipeline.Assembly

def Defines (source label : List Char) : Prop := ∃ line ∈ lines source, label ∈ line.labels

/-- The body is an instruction as it is documented. -/
def Documented (source body : List Char) : Prop :=
  IsInstruction (fun o => ∃ i, Register.Names o i)
    (fun o => (∃ n, Denotes o n ∧ -32768 ≤ n ∧ n ≤ 32767) ∨ Defines source o)
    (fun o => (∃ n, Denotes o n) ∨ Defines source o) body

/-- The body is such an instruction, and what it names is in its reach from the instruction with the
index `i`. -/
def Reaches (source : List Char) (base : Word) (i : Nat) (body : List Char) : Prop :=
  IsInstruction (fun o => ∃ i, Register.Names o i)
    (fun o => (∃ n, Denotes o n ∧ -32768 ≤ n ∧ n ≤ 32767) ∨
      ∃ goal, LastLabelAt base (lines source) o goal ∧ InReach (base + Word.ofIndex i) goal)
    (fun o => (∃ n, Denotes o n ∧ n.natAbs < 9223372036854775808) ∨ Defines source o) body

/-- Besides its comment and its labels the line is blank or an instruction. -/
def Regular (source text : List Char) : Prop :=
  ∃ line, Parts (Text.before '#' text) line ∧ line.badLabel = none ∧
    (line.body = [] ∨ Documented source line.body)

/-- The line has separators and nothing that they separate, or a register number with a sign. -/
inductive Irregular (text : List Char) : Prop where
  | separators {line : Line} (parts : Parts (Text.before '#' text) line)
      (something : line.body ≠ [])
      (nothing : Text.tokens isOperandSeparator line.body = [])
  | signed {line : Line} {token : List Char} {i : Nat} (parts : Parts (Text.before '#' text) line)
      (written : token ∈ Text.tokens isOperandSeparator line.body)
      (register : Register.NamesSigned token i)

theorem not_isBlank_of_mem_tokens {body token : List Char}
    (listed : token ∈ Text.tokens isOperandSeparator body) : ∀ c ∈ token, ¬ Text.isBlank c := by
  intro c inside blank
  exact Text.not_separator_of_mem_tokens listed c inside (isOperandSeparator_of_isBlank c blank)

section Labels

variable {source label : List Char} {base : Word}

theorem isLabel_of_defines (defines : Defines source label) : isLabel label := by
  obtain ⟨line, listed, member⟩ := defines
  obtain ⟨text, -, rfl⟩ := List.mem_map.mp listed
  exact isLabel_of_mem_labels member

theorem defines_of_found {address : Word}
    (found : (Placement.ofLines base (lines source)).labels[label]? = some address) :
    Defines source label := by
  obtain ⟨front, line, back, cut, member, -⟩ := (Placement.labels_ofLines _ _ _ _).mp found
  exact ⟨line, cut ▸ List.mem_append_right front List.mem_cons_self, member⟩

theorem found_of_defines (base : Word) (defines : Defines source label) :
    ∃ address, (Placement.ofLines base (lines source)).labels[label]? = some address := by
  obtain ⟨line, listed, member⟩ := defines
  generalize lines source = program at listed
  -- From the end, since the last line that defines a label decides its address.
  induction program using List.reverseRecOn with
  | nil => contradiction
  | append_singleton front last ih =>
    rw [Placement.ofLines_concat]
    simp only [Placement.labels_add]
    by_cases again : label ∈ last.labels
    · exact ⟨_, if_pos again⟩
    · simp only [if_neg again]
      rcases List.mem_append.mp listed with early | late
      · exact ih early
      · rw [List.mem_singleton.mp late] at member
        contradiction

end Labels

section Destinations

variable {source operand : List Char} {base address : Word}

theorem destination_of_branchOffset {n : Int}
    (offset : branchOffset (Placement.ofLines base (lines source)).labels address operand = .ok n) :
    (∃ n, Denotes operand n ∧ -32768 ≤ n ∧ n ≤ 32767) ∨ Defines source operand := by
  cases found : (Placement.ofLines base (lines source)).labels[operand]? with
  | some goal => exact .inr (defines_of_found found)
  | none =>
    simp only [branchOffset, found, bind_eq_ok_iff, literalDestination_eq_ok_iff,
      integer?_eq_some_iff] at offset
    obtain ⟨m, ⟨written, -⟩, checked⟩ := offset
    split at checked
    · rename_i range
      exact .inl ⟨m, written, range⟩
    · contradiction

theorem destination_of_jumpWord {n : Int}
    (word : jumpWord (Placement.ofLines base (lines source)).labels operand = .ok n) :
    (∃ n, Denotes operand n) ∨ Defines source operand := by
  cases found : (Placement.ofLines base (lines source)).labels[operand]? with
  | some goal => exact .inr (defines_of_found found)
  | none =>
    rw [jumpWord, found, literalDestination_eq_ok_iff, integer?_eq_some_iff] at word
    exact .inl ⟨n, word.1⟩

end Destinations

section Assembled

variable {source body : List Char} {base : Word} {words : List Word}

theorem exists_encode_of_mem (assembled : assemble source base = .ok words)
    (member : body ∈ bodies (lines source)) :
    ∃ address w, encode (Placement.ofLines base (lines source)).labels address body = .ok w := by
  obtain ⟨i, inside, rfl⟩ := List.getElem_of_mem member
  have inside' : i < words.length := length_of_assemble assembled ▸ inside
  exact ⟨_, _, encode_of_assemble assembled (List.getElem?_eq_getElem inside)
    (List.getElem?_eq_getElem inside')⟩

/-- An instruction that was assembled is a documented one, but for signs of register numbers. -/
theorem documented_of_assemble (assembled : assemble source base = .ok words)
    (member : body ∈ bodies (lines source))
    (something : Text.tokens isOperandSeparator body ≠ [])
    (unsigned : ∀ token ∈ Text.tokens isOperandSeparator body,
      ∀ i, ¬ Register.NamesSigned token i) :
    Documented source body := by
  obtain ⟨address, w, encoded⟩ := exists_encode_of_mem assembled member
  have instruction := (exists_encode_iff.mp ⟨w, encoded⟩).resolve_left something
  refine instruction.imp ?_ ?_ ?_
  · rintro token listed ⟨i, found⟩
    have solid := not_isBlank_of_mem_tokens listed
    rcases (Register.index?_eq_some_iff solid).mp found with names | signed
    · exact ⟨i, names⟩
    · exact absurd signed (unsigned token listed i)
  · rintro token - ⟨n, offset⟩
    exact destination_of_branchOffset offset
  · rintro token - ⟨n, word⟩
    exact destination_of_jumpWord word

theorem regular_of_assemble (assembled : assemble source base = .ok words) {text : List Char}
    (line : text ∈ Text.lines source) (usual : ¬ Irregular text) : Regular source text := by
  have parts : Parts (Text.before '#' text) (.ofText text) := parts_iff.mpr rfl
  have listed : Line.ofText text ∈ lines source := List.mem_map_of_mem line
  refine ⟨_, parts, ?_, ?_⟩
  · obtain ⟨front, back, cut⟩ := List.append_of_mem listed
    exact ((assemble_eq_ok_iff.mp assembled).1 front _ back cut).2
  · by_cases blank : (Line.ofText text).body = []
    · exact .inl blank
    · have member : (Line.ofText text).body ∈ bodies (lines source) :=
        List.mem_filter.mpr ⟨List.mem_map_of_mem listed, decide_eq_true blank⟩
      refine .inr (documented_of_assemble assembled member ?_ ?_)
      · intro nothing
        exact usual (.separators parts blank nothing)
      · intro token written i register
        exact usual (.signed parts written register)

end Assembled

theorem Denotes.not_dollar {rest : List Char} {n : Int} : ¬ Denotes ('$' :: rest) n := by
  intro denotes
  generalize same : '$' :: rest = operand at denotes
  cases denotes with
  | unsigned magnitude =>
    cases magnitude with
    | decimal numeral =>
      rw [← same] at numeral
      exact absurd (numeral.isSome_digit? '$' List.mem_cons_self) (by decide)
    | hexadecimal marked numeral =>
      rcases marked with rfl | rfl <;> exact absurd (List.head_eq_of_cons_eq same) (by decide)
  | plus magnitude => exact absurd (List.head_eq_of_cons_eq same) (by decide)
  | minus magnitude => exact absurd (List.head_eq_of_cons_eq same) (by decide)

theorem not_documented_of_signed {source body token : List Char} {i : Nat}
    (written : token ∈ Text.tokens isOperandSeparator body)
    (register : Register.NamesSigned token i) : ¬ Documented source body := by
  intro documented
  have unnamed {j : Nat} : ¬ Register.Names token j := register.not_names
  cases register with
  | @number digits _ numeral small =>
    have not_defined : ¬ Defines source ('$' :: '+' :: digits) := by
      intro defines
      have label := isLabel_of_defines defines
      contradiction
    rcases documented.token _ written with ⟨name, rfl, letters⟩ | ⟨j, names⟩ | ⟨n, number⟩ |
      (⟨n, number, -⟩ | defines) | (⟨n, number⟩ | defines)
    · contradiction
    · exact unnamed names
    · exact number.not_dollar
    · exact number.not_dollar
    · exact not_defined defines
    · exact number.not_dollar
    · exact not_defined defines

theorem Irregular.not_regular {source text : List Char} (irregular : Irregular text) :
    ¬ Regular source text := by
  rintro ⟨line, parts, -, blank_or_documented⟩
  have same := parts_iff.mp parts
  cases irregular with
  | separators parts' something nothing =>
    obtain rfl := same.symm.trans (parts_iff.mp parts')
    rcases blank_or_documented with blank | documented
    · exact something blank
    · cases documented with
      | nop alone named =>
        rw [nothing] at alone
        contradiction
      | operation spells takes =>
        obtain ⟨head, tokens, -⟩ := spells
        rw [nothing] at tokens
        contradiction
  | signed parts' written register =>
    obtain rfl := same.symm.trans (parts_iff.mp parts')
    rcases blank_or_documented with blank | documented
    · rw [blank] at written
      contradiction
    · exact not_documented_of_signed written register documented

/-- Nothing that is documented and in reach is refused. -/
theorem exists_assemble {source : List Char} {base : Word}
    (unspoilt : Unspoilt base (lines source))
    (reaches : ∀ i body, (bodies (lines source))[i]? = some body → Reaches source base i body) :
    ∃ words, assemble source base = .ok words := by
  suffices clean : ∀ fault, .error fault ∉ encodings base (lines source) from
    ⟨_, assemble_eq_ok_iff.mpr ⟨unspoilt, filterMap_toOption_iff.mp ⟨clean, rfl⟩⟩⟩
  intro fault rejected
  obtain ⟨i, inside, failed⟩ := List.mem_mapIdx.mp rejected
  suffices ∃ w, encode (Placement.ofLines base (lines source)).labels (base + Word.ofIndex i)
      (bodies (lines source))[i] = .ok w by
    obtain ⟨w, encoded⟩ := this
    rw [encoded] at failed
    contradiction
  have only_labels := @isLabel_of_labels source
  refine exists_encode_iff.mpr (.inr ?_)
  refine (reaches i _ (List.getElem?_eq_getElem inside)).imp ?_ ?_ ?_
  · rintro token listed ⟨r, names⟩
    exact ⟨r, Register.index?_of_names (not_isBlank_of_mem_tokens listed) (.inl names)⟩
  · rintro token - (⟨n, number, low, high⟩ | ⟨goal, defined, reach⟩)
    · exact ⟨n, branchOffset_of_written (fun _ _ => only_labels) number low high⟩
    · have found := (Placement.labels_ofLines base (lines source) token goal).mpr defined
      obtain ⟨q, distance⟩ := exists_distance_of_labels found i
      have near : -32768 ≤ q ∧ q ≤ 32767 := by
        unfold InReach at reach
        omega
      exact ⟨q, (branchOffset_of_label found q distance).trans (if_pos near)⟩
  · rintro token - (⟨n, number, small⟩ | defines)
    · exact ⟨n, jumpWord_of_written (fun _ _ => only_labels) number small⟩
    · obtain ⟨goal, found⟩ := found_of_defines base defines
      exact ⟨goal.index, by rw [jumpWord, found]; rfl⟩

theorem word_of_separators {source body : List Char} {base : Word} {words : List Word} {i : Nat}
    (assembled : assemble source base = .ok words)
    (written : (bodies (lines source))[i]? = some body)
    (nothing : Text.tokens isOperandSeparator body = []) : words[i]? = some 0 := by
  obtain ⟨inside, -⟩ := List.getElem?_eq_some_iff.mp written
  have word := List.getElem?_eq_getElem (length_of_assemble assembled ▸ inside)
  have encoded := encode_of_assemble assembled written word
  rw [encode, nothing] at encoded
  rw [word, Except.ok.inj encoded]

/-- What is assembled is documented, but for lines of separators, which give the word 0, and for
signs of register numbers; and what is documented is assembled. -/
theorem accepts_documented (source : List Char) (base : Word) :
    (∀ words, assemble source base = .ok words →
      (∀ text ∈ Text.lines source, Regular source text ↔ ¬ Irregular text) ∧
      ∀ (i : Nat) body, (bodies (lines source))[i]? = some body →
        Text.tokens isOperandSeparator body = [] → words[i]? = some 0) ∧
    (Unspoilt base (lines source) →
      (∀ i body, (bodies (lines source))[i]? = some body → Reaches source base i body) →
      ∃ words, assemble source base = .ok words) := by
  constructor
  · intro words assembled
    constructor
    · intro text line
      constructor
      · intro regular irregular
        exact irregular.not_regular regular
      · intro usual
        exact regular_of_assemble assembled line usual
    · intro i body written nothing
      exact word_of_separators assembled written nothing
  · intro unspoilt reaches
    exact exists_assemble unspoilt reaches

def summing : List Char := "top: ADD $t0, $S8, $31 # sum\n beq $t0, $zero, top".toList

theorem bodies_summing : bodies (lines summing) =
    ["ADD $t0, $S8, $31".toList, "beq $t0, $zero, top".toList] := by decide +kernel

theorem reaches_summing {i : Nat} {body : List Char}
    (written : (bodies (lines summing))[i]? = some body) : Reaches summing 0x40 i body := by
  have t0 : Register.Names ('$' :: "t0".toList) 8 := .name rfl rfl
  have zero : Register.Names ('$' :: "zero".toList) 0 := .name rfl rfl
  have s8 : Register.Names ('$' :: "S8".toList) 30 := .secondName rfl
  have ra : Register.Names "$31".toList 31 :=
    .number (Text.digits?_eq_some_iff.mp rfl) (by decide)
  rw [bodies_summing] at written
  match i with
  | 0 =>
    obtain rfl := Option.some.inj written
    have spells : Spells "ADD $t0, $S8, $31".toList .add
        ["$t0".toList, "$S8".toList, "$31".toList] :=
      ⟨"ADD".toList, by decide +kernel, by decide⟩
    exact .operation spells (.threeRegisters ⟨8, t0⟩ ⟨30, s8⟩ ⟨31, ra⟩)
  | 1 =>
    obtain rfl := Option.some.inj written
    have spells : Spells "beq $t0, $zero, top".toList .beq
        ["$t0".toList, "$zero".toList, "top".toList] :=
      ⟨"beq".toList, by decide +kernel, by decide⟩
    have top : LastLabelAt 0x40 (lines summing) "top".toList 0x40 := by
      refine ⟨[], _, _, rfl, by decide +kernel, by decide +kernel, by decide⟩
    exact .operation spells (.branch ⟨8, t0⟩ ⟨0, zero⟩ (.inr ⟨_, top, by decide⟩))
  | i + 2 => contradiction

theorem accepts_documented_summing :
    (∀ text ∈ Text.lines summing, Regular summing text ↔ ¬ Irregular text) ∧
      ∃ words, assemble summing 0x40 = .ok words := by
  have assembled : assemble summing 0x40 = .ok [0x03DF4020, 0x1100FFFE] := by decide +kernel
  have unspoilt := (assemble_eq_ok_iff.mp assembled).1
  constructor
  · exact ((accepts_documented summing 0x40).1 _ assembled).1
  · exact (accepts_documented summing 0x40).2 unspoilt fun _ _ => reaches_summing

/-- A register number with a sign and a line of separators are assembled, and neither line is as it
is documented. -/
theorem accepts_undocumented :
    (assemble "jr $+5".toList 0 = .ok [0x00A00008] ∧
      ¬ Regular "jr $+5".toList "jr $+5".toList) ∧
    assemble ",".toList 0 = .ok [0] ∧ ¬ Regular ",".toList ",".toList := by
  have register : Register.NamesSigned "$+5".toList 5 :=
    .number (Text.digits?_eq_some_iff.mp rfl) (by decide)
  have signed : Irregular "jr $+5".toList :=
    .signed (parts_iff.mpr rfl) (by decide +kernel) register
  have separators : Irregular ",".toList :=
    .separators (parts_iff.mpr rfl) (by decide +kernel) (by decide +kernel)
  exact ⟨⟨by decide +kernel, signed.not_regular⟩, by decide +kernel, separators.not_regular⟩

end MipsPipeline.Assembly
