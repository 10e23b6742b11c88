import MipsPipeline.Proofs.Encoding
import MipsPipeline.Proofs.Listing

/-
Telling the two formats of program text apart. A code line that is a word is one token for the
assembler, and no mnemonic goes without operands but `nop`, which is no word: so a text is a program
in one format at most, and the format that is found is the one that it is written in.
-/
namespace MipsPipeline

theorem Text.toLower_ne_of_digit? {c : Char} (digit : (digit? 16 c).isSome) : c.toLower ≠ 'n' := by
  have each : ∀ n < 128, (digit? 16 (Char.ofNat n)).isSome → (Char.ofNat n).toLower ≠ 'n' := by
    decide
  have range := isAlphanum_iff.mp (isAlphanum_of_digit? digit)
  have here := each c.toNat (by omega)
  rw [Char.ofNat_toNat] at here
  exact here digit

namespace Listing

theorem Writes.toLower_ne {text : List Char} {w : Word} (writes : Writes text w) :
    ∀ c ∈ text, c.toLower ≠ 'n' := by
  obtain ⟨marked, numeral, -⟩ := writes
  have marks : ∀ mark ∈ [[], ['0', 'x'], ['0', 'X']], 'n' ∉ mark.map Char.toLower := by decide
  intro c member
  rcases List.mem_append.mp member with early | late
  · intro lower
    exact marks _ (by simpa using marked) (List.mem_map.mpr ⟨c, early, lower⟩)
  · exact Text.toLower_ne_of_digit? (numeral.isSome_digit? c late)

end Listing

namespace Assembly

open Listing (Writes)

theorem not_means_of_writes {body : List Char} {v w : Word} (writes : Writes body v) :
    ¬ Means body w := by
  have token := writes.solid.tokens
  intro means
  -- A single token is `nop`, which has an n in it, or a mnemonic, which goes with operands.
  cases means with
  | idle idles =>
    rcases idles with nothing | ⟨head, alone, nop⟩
    · rw [token] at nothing
      contradiction
    · obtain rfl : body = head := List.singleton_injective (token.symm.trans alone)
      have first : 'n' ∈ body.map Char.toLower := by
        rw [nop]
        decide
      obtain ⟨c, member, lower⟩ := List.mem_map.mp first
      exact writes.toLower_ne c member lower
  | instruction spells decodes fits =>
    obtain ⟨head, tokens, -⟩ := spells
    obtain ⟨-, rfl⟩ := List.cons.inj (token.symm.trans tokens)
    cases fits

/-- The assembler takes a code line that is a word for an instruction. -/
theorem mem_bodies_of_writes {text : List Char} {line : List Char × Nat} {w : Word}
    (listed : line ∈ Listing.codeLines text) (writes : Writes line.1 w) :
    line.1 ∈ bodies (lines text) := by
  obtain ⟨something, written, member, same⟩ := Listing.exists_line_of_mem_codeLines listed
  have colon : ':' ∉ Text.before '#' written := by
    intro inside
    have kept := Text.mem_trim inside (by decide)
    rw [← Listing.code, ← same] at kept
    exact absurd (writes.solid.isWordChar ':' kept) (by decide)
  have body : (Line.ofText written).body = line.1 := by
    rw [Line.ofText_of_unlabelled colon, same]
    rfl
  refine List.mem_filter.mpr ⟨List.mem_map.mpr ⟨Line.ofText written, ?_, body⟩, ?_⟩
  · exact List.mem_map.mpr ⟨written, member, rfl⟩
  · exact decide_eq_true something

theorem assemble_of_looksLike {text : List Char} (looks : Listing.LooksLike text) (base : Word) :
    ∃ faults, assemble text base = .error faults := by
  cases assembled : assemble text base with
  | error faults => exact ⟨faults, rfl⟩
  | ok words =>
    obtain ⟨something, all_words⟩ := looks
    obtain ⟨line, listed⟩ := List.exists_mem_of_ne_nil _ something
    obtain ⟨v, word⟩ := Option.isSome_iff_exists.mp (all_words line listed)
    have writes := Listing.word?_eq_some_iff.mp word
    -- The line is one of the instructions, and each of these means the word it is assembled to.
    have means := forall₂_means assembled
    obtain ⟨i, inside, body⟩ := List.getElem_of_mem (mem_bodies_of_writes listed writes)
    have here := means.get inside (means.length_eq ▸ inside)
    rw [List.get_eq_getElem, body] at here
    exact absurd here (not_means_of_writes writes)

end Assembly

namespace SourceFormat

theorem words_auto_of_looksLike {text : List Char} (looks : Listing.LooksLike text) (start : Word) :
    auto.words text start = hex.words text start := if_pos looks

theorem words_auto_of_not_looksLike {text : List Char} (looks : ¬ Listing.LooksLike text)
    (start : Word) : auto.words text start = assembly.words text start := if_neg looks

theorem words_assembly_eq_ok_iff {text : List Char} {start : Word} {words : List Word} :
    assembly.words text start = .ok words ↔ Assembly.assemble text start = .ok words :=
  mapError_eq_ok_iff

theorem not_looksLike_of_assembles {text : List Char} {start : Word} {words : List Word}
    (assembled : Assembly.assemble text start = .ok words) : ¬ Listing.LooksLike text := by
  intro looks
  obtain ⟨faults, failed⟩ := Assembly.assemble_of_looksLike looks start
  rw [assembled] at failed
  contradiction

/-- A text looks like a listing just if it is a listing that holds a word, and then it does not
assemble anywhere. So the format that is found gives the words of a listing if there are any and of
an assembled program if there is one, and it never complains of a word in a listing. -/
theorem formats_unambiguous :
    (∀ text, Listing.LooksLike text ↔ ∃ words, Listing.parse text = .ok words ∧ words ≠ []) ∧
    (∀ text start, Listing.LooksLike text →
      ∃ faults, Assembly.assemble text start = .error faults) ∧
    (∀ text start words, Assembly.assemble text start = .ok words → ¬ Listing.LooksLike text) ∧
    (∀ text start words, hex.words text start = .ok words → words ≠ [] →
      auto.words text start = .ok words) ∧
    (∀ text start words, assembly.words text start = .ok words →
      auto.words text start = .ok words) ∧
    (∀ text start line code, auto.words text start ≠ .error (.badHex line code)) ∧
    ∀ text start listed assembled, hex.words text start = .ok listed →
      assembly.words text start = .ok assembled → listed = [] := by
  refine ⟨fun _ => Listing.looksLike_iff, ?_, fun _ _ _ => not_looksLike_of_assembles, ?_, ?_, ?_,
    ?_⟩
  · intro text start looks
    exact Assembly.assemble_of_looksLike looks start
  · intro text start words listed something
    rw [words_auto_of_looksLike (Listing.looksLike_iff.mpr ⟨words, listed, something⟩), listed]
  · intro text start words assembled
    rw [words_auto_of_not_looksLike
      (not_looksLike_of_assembles (words_assembly_eq_ok_iff.mp assembled)), assembled]
  · intro text start line code
    by_cases looks : Listing.LooksLike text
    · obtain ⟨words, read, -⟩ := Listing.looksLike_iff.mp looks
      rw [words_auto_of_looksLike looks]
      simp [SourceFormat.words, read]
    · rw [words_auto_of_not_looksLike looks]
      simp only [SourceFormat.words, assemble]
      cases Assembly.assemble text start <;> simp [Except.mapError]
  · intro text start listed assembled read assembles
    by_contra something
    exact not_looksLike_of_assembles (words_assembly_eq_ok_iff.mp assembles)
      (Listing.looksLike_iff.mpr ⟨listed, read, something⟩)

/-- Words that are spelled like a mnemonic, with a mark and with a comment. -/
def mnemonicListing : List Char := "# sums\nADD\n\t0Xbeef # mask\n\n0".toList

def labelledSum : List Char := "add:\n add $t0, $t1, $t2 # 0\nj add".toList

theorem formats_unambiguous_mnemonicListing :
    (Listing.LooksLike mnemonicListing ∧
      hex.words mnemonicListing 0x40 = .ok [0xADD, 0xBEEF, 0] ∧
      auto.words mnemonicListing 0x40 = .ok [0xADD, 0xBEEF, 0] ∧
      ∃ faults, Assembly.assemble mnemonicListing 0x40 = .error faults) ∧
    assembly.words labelledSum 0x40 = .ok [0x012A4020, 0x08000010] ∧
    auto.words labelledSum 0x40 = .ok [0x012A4020, 0x08000010] ∧
    ¬ Listing.LooksLike labelledSum := by
  obtain ⟨-, listing_fails, program_differs, listed, assembled, -, -⟩ := formats_unambiguous
  have looks : Listing.LooksLike mnemonicListing := by decide +kernel
  have read : hex.words mnemonicListing 0x40 = .ok [0xADD, 0xBEEF, 0] := by decide +kernel
  have assembles : assembly.words labelledSum 0x40 = .ok [0x012A4020, 0x08000010] := by
    decide +kernel
  exact ⟨⟨looks, read, listed _ _ _ read (by decide), listing_fails _ _ looks⟩, assembles,
    assembled _ _ _ assembles, program_differs _ _ _ (words_assembly_eq_ok_iff.mp assembles)⟩

end SourceFormat

end MipsPipeline
