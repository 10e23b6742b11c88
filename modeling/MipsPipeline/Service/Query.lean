import MipsPipeline.Text.Blank
import MipsPipeline.Text.Numeral
import MipsPipeline.Text.Piece
import MipsPipeline.Text.Utf8

/-
The query of a request target: named values in the form encoding. Values are kept in the order
given, so that a name that stands twice can be told. Up to `value?`, and in `repeated?`, this is
what the libraries that read targets and queries document; only `present?` is the service's own.
-/
namespace MipsPipeline

structure Query where
  pairs : List (List Char × List Char)
  deriving DecidableEq, Repr

namespace Query

def hexByte? (high low : UInt8) : Option UInt8 := do
  let h ← Text.digit? 16 (Char.ofNat high.toNat)
  let l ← Text.digit? 16 (Char.ofNat low.toNat)
  some (UInt8.ofNat (h * 16 + l))

/-- A percent sign and two hexadecimal digits stand for a byte; any other percent sign stands for
itself. -/
def unescape : List UInt8 → List UInt8
  | 0x25 :: high :: low :: rest => match hexByte? high low with
    | some byte => byte :: unescape rest
    | none => 0x25 :: unescape (high :: low :: rest)
  | byte :: rest => byte :: unescape rest
  | [] => []

/-- A name or a value. A plus sign is a space unless it is escaped, and bytes that are no text are
replaced. -/
def component (text : List Char) : List Char :=
  let spaced := text.map fun c => if c = '+' then ' ' else c
  Text.Utf8.decodeLossy (unescape (Text.Utf8.encode spaced))

/-- The value is everything behind the first equality sign, and empty without one. -/
def pair (segment : List Char) : List Char × List Char :=
  let (name, value) := (Text.cut? '=' segment).getD (segment, [])
  (component name, component value)

def ofText (text : List Char) : Query := ⟨(Text.tokens (· = '&') text).map pair⟩

/-- A target without the scheme and the authority that open an absolute one. -/
def originForm (target : List Char) : List Char :=
  match target with
  | '/' :: _ => target
  | _ => match Text.cut? ':' target with
    | some (_, '/' :: '/' :: rest) => rest.dropWhile fun c => c ≠ '/' ∧ c ≠ '?'
    | _ => target

/-- The path of a target and its query. A fragment is dropped. -/
def ofTarget (target : List Char) : List Char × Query :=
  let shown := originForm (Text.before '#' target)
  let (path, query) := (Text.cut? '?' shown).getD (shown, [])
  (path, ofText query)

/-- The value of a name. -/
def value? (q : Query) (name : String) : Option (List Char) :=
  (q.pairs.find? (·.1 = name.toList)).map (·.2)

/-- The value of a name, if it is more than blanks, without the blanks around it. -/
def present? (q : Query) (name : String) : Option (List Char) :=
  ((q.value? name).map Text.trim).filter (· ≠ [])

/-- The first of some names to be given a second time. -/
def repeated? (q : Query) (names : List String) : Option String :=
  go ((q.pairs.map (·.1)).filterMap fun key => names.find? (·.toList = key)) []
where
  go : List String → List String → Option String
    | [], _ => none
    | name :: rest, seen => if name ∈ seen then some name else go rest (name :: seen)

end Query

end MipsPipeline
