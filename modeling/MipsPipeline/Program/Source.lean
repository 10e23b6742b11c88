import MipsPipeline.Assembly.Program
import MipsPipeline.Program.Listing

/-
Program text in its two formats. Text of unknown format is taken for a hex listing if it looks
like one, and for assembly otherwise.
-/
namespace MipsPipeline

inductive SourceFormat where
  | auto
  | hex
  | assembly
  deriving DecidableEq, Repr

namespace SourceFormat

def assemble (text : List Char) (start : Word) : Except LoadError (List Word) :=
  (Assembly.assemble text start).mapError .assembly

/-- The machine words of a program whose first word goes to `start`. -/
def words (format : SourceFormat) (text : List Char) (start : Word) :
    Except LoadError (List Word) :=
  match format with
  | .hex => Listing.parse text
  | .assembly => assemble text start
  | .auto => if Listing.LooksLike text then Listing.parse text else assemble text start

end SourceFormat

end MipsPipeline
