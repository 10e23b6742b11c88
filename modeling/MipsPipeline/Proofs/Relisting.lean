import MipsPipeline.CommandLine.Execution
import MipsPipeline.Proofs.Detection
import MipsPipeline.Proofs.InPlace

/-
A program by way of its listing. What the assembler prints is read back as the same words whether
it is announced as a listing or not, just as its source is; and nothing else of a text reaches the
machine, so that either of the two can be loaded in place of the other.
-/
namespace MipsPipeline

section Words

variable {source : List Char} {start : Word} {words : List Word}

theorem SourceFormat.words_auto_print (words : List Word) (start : Word) :
    auto.words (Listing.print words).toList start = .ok words := by
  have read := Listing.parse_print words
  by_cases nothing : words = []
  · -- The empty text is no listing, and assembles to the empty program.
    subst nothing
    rfl
  · rw [words_auto_of_looksLike (Listing.looksLike_iff.mpr ⟨words, read, nothing⟩)]
    exact read

theorem SourceFormat.words_print {format : SourceFormat} (readable : format ≠ .assembly) :
    format.words (Listing.print words).toList start = .ok words := by
  cases format with
  | auto => exact words_auto_print words start
  | hex => exact Listing.parse_print words
  | assembly => contradiction

theorem SourceFormat.words_of_assembles {format : SourceFormat} (readable : format ≠ .hex)
    (assembled : Assembly.assemble source start = .ok words) :
    format.words source start = .ok words := by
  have read := words_assembly_eq_ok_iff.mpr assembled
  cases format with
  | auto => rwa [words_auto_of_not_looksLike (not_looksLike_of_assembles assembled)]
  | hex => contradiction
  | assembly => exact read

/-- The listing is all that comes out. -/
theorem Outcome.ofArguments_of_assembles (assembled : Assembly.assemble source start = .ok words)
    {files : Files} {arguments : List String} {file : String}
    (asks : Command.parse? arguments = some (.assemble file start))
    (reads : files.text file = .ok source) :
    ofArguments files arguments = ⟨.success, { standard := Listing.print words }⟩ := by
  have read := SourceFormat.words_assembly_eq_ok_iff.mpr assembled
  simp only [ofArguments, asks, Command.execute, reads, read, Except.mapError, bind, Except.bind,
    pure, Except.pure]

end Words

section Load

variable {format other : SourceFormat} {text source : List Char} {start : Word}

theorem Machine.loadText_congr (m : Machine)
    (same : format.words text start = other.words source start) :
    m.loadText format text start = m.loadText other source start := by
  rw [loadText, loadText, CodeMemory.loadText, CodeMemory.loadText, same]

theorem Machine.loadTextInPlace_congr
    (same : format.words text start = other.words source start) :
    loadTextInPlace format text start = loadTextInPlace other source start := by
  rw [loadTextInPlace, loadTextInPlace, same]

end Load

/-- A program that assembles is printed word by word, one to a line, and the listing reads back.
Loading the listing, announced or not, and loading the source, announced or not, are the same: the
same report or the same fault, and the same machine afterwards. -/
theorem listing_loads_as_source {source : List Char} {start : Word} {words : List Word}
    (assembled : Assembly.assemble source start = .ok words) :
    (∀ files arguments file, Command.parse? arguments = some (.assemble file start) →
      files.text file = .ok source →
      Outcome.ofArguments files arguments =
        ⟨.success, { standard := Listing.print words }⟩) ∧
    Text.lines (Listing.print words).toList = words.map (fun w => (Listing.printWord w).toList) ∧
    Listing.parse (Listing.print words).toList = .ok words ∧
    ∀ (m : Machine) (listed written : SourceFormat), listed ≠ .assembly → written ≠ .hex →
      m.loadText listed (Listing.print words).toList start = m.loadText written source start ∧
      (Machine.loadTextInPlace listed (Listing.print words).toList start).run m =
        (Machine.loadTextInPlace written source start).run m := by
  refine ⟨fun files arguments file asks reads =>
    Outcome.ofArguments_of_assembles assembled asks reads, Listing.lines_print words,
    Listing.parse_print words, fun m listed written readable assembles => ?_⟩
  have same : listed.words (Listing.print words).toList start = written.words source start :=
    (SourceFormat.words_print readable).trans
      (SourceFormat.words_of_assembles assembles assembled).symm
  exact ⟨m.loadText_congr same, by rw [Machine.loadTextInPlace_congr same]⟩

/-- A countdown whose jump depends on where it is loaded. -/
def countdown : List Char :=
  "addi $t0, $zero, 3\nagain: addi $t0, $t0, -1\nbne $t0, $zero, again\nj again".toList

def countdownFiles : Files := fun name =>
  if name = "countdown.asm" then .ok (Text.Utf8.encode countdown) else .error (.system .missing)

/-- The listing of the countdown is loaded without its last word, for which there is no room. -/
theorem listing_loads_as_source_countdown :
    Assembly.assemble countdown 0x40 = .ok [0x20080003, 0x2108FFFF, 0x1500FFFE, 0x08000011] ∧
    Outcome.ofArguments countdownFiles ["asm", "--base=0x40", "countdown.asm"] =
      ⟨.success, { standard := "0x20080003\n0x2108FFFF\n0x1500FFFE\n0x08000011\n" }⟩ ∧
    (Machine.ofSettings { codeWords := 19 }).loadText .auto
        "0x20080003\n0x2108FFFF\n0x1500FFFE\n0x08000011\n".toList 0x40 =
      (Machine.ofSettings { codeWords := 19 }).loadText .assembly countdown 0x40 := by
  have assembled : Assembly.assemble countdown 0x40 =
      .ok [0x20080003, 0x2108FFFF, 0x1500FFFE, 0x08000011] := by decide +kernel
  obtain ⟨printed, -, -, loads⟩ := listing_loads_as_source assembled
  refine ⟨assembled, printed countdownFiles _ "countdown.asm" ?_ ?_,
    (loads _ .auto .assembly (by decide) (by decide)).1⟩
  · decide +kernel
  · decide +kernel

end MipsPipeline
