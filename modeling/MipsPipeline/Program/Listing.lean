import MipsPipeline.Program.Error
import MipsPipeline.Text.Blank
import MipsPipeline.Text.Numeral
import MipsPipeline.Text.Piece

/-
Hex listings: one machine word to a line, written as one to eight hexadecimal digits with or
without the mark `0x`. A number sign starts a comment, and lines without a word are skipped.
-/
namespace MipsPipeline.Listing

def word? (text : List Char) : Option Word :=
  let digits := (Text.hexMark? text).getD text
  if digits.length ≤ 8 then (Text.digits? 16 digits).map (BitVec.ofNat 32) else none

/-- What a line says besides its comment. -/
def code (line : List Char) : List Char := Text.trim (Text.before '#' line)

/-- The lines that say something, with their numbers counted from 1. -/
def codeLines (text : List Char) : List (List Char × Nat) :=
  (((Text.lines text).map code).zipIdx 1).filter (·.1 ≠ [])

/-- The words of a listing, or the first line that holds none. -/
def parse (text : List Char) : Except LoadError (List Word) :=
  (codeLines text).mapM fun (line, number) =>
    match word? line with
    | some w => .ok w
    | none => .error (.badHex number (String.ofList line))

/-- A text with at least one code line, all of whose code lines are words. -/
def LooksLike (text : List Char) : Prop :=
  codeLines text ≠ [] ∧ ∀ line ∈ codeLines text, (word? line.1).isSome

instance (text : List Char) : Decidable (LooksLike text) :=
  inferInstanceAs (Decidable (_ ∧ ∀ line ∈ codeLines text, (word? line.1).isSome))

def printWord (w : Word) : String := Text.upperHex 8 w.toNat

def print (words : List Word) : String :=
  words.foldl (fun out w => out ++ printWord w ++ "\n") ""

end MipsPipeline.Listing
