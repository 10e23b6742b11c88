import MipsPipeline.Text.Blank
import MipsPipeline.Text.Piece

/-
The parts of a line of assembly: any number of labels, each with a colon behind it, then at most
one instruction. A number sign starts a comment. Text in front of a colon that is no label spoils
the rest of its line.
-/
namespace MipsPipeline.Assembly

structure Line where
  /-- The leading labels, up to the first text that is no label. -/
  labels : List (List Char)
  badLabel : Option (List Char)
  /-- The instruction; empty on a line without one and on a spoilt line. -/
  body : List Char
  deriving DecidableEq, Repr

def isLabelStart (c : Char) : Bool := c.isAlpha || c = '_' || c = '.'
def isLabelChar (c : Char) : Bool := c.isAlphanum || c = '_' || c = '.'

def isLabel : List Char → Bool
  | [] => false
  | c :: rest => isLabelStart c && rest.all isLabelChar

def Line.ofText (text : List Char) : Line :=
  let fields := (Text.fields (· = ':') (Text.before '#' text)).map Text.trim
  let labels := fields.dropLast.takeWhile isLabel
  match fields.dropLast.dropWhile isLabel with
  | [] => ⟨labels, none, fields.getLastD []⟩
  | bad :: _ => ⟨labels, some bad, []⟩

end MipsPipeline.Assembly
