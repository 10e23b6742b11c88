/-
JSON values. Members keep their order and may repeat a key. A number keeps what a reader of whole
numbers needs to know: its sign, also of a zero, and whether it was written with a fraction or an
exponent. A string is `none` when an escape in it leaves a surrogate without its partner; such a
string is well-formed but is no Unicode text.
-/
namespace MipsPipeline

inductive Json where
  | null
  | bool (value : Bool)
  | whole (negative : Bool) (magnitude : Nat)
  | fraction (literal : String)
  | string (value : Option String)
  | array (items : List Json)
  | object (members : List (Option String × Json))
  deriving Repr

namespace Json

def text (s : String) : Json := .string (some s)
def nat (n : Nat) : Json := .whole false n
def int (n : Int) : Json := .whole (n < 0) n.natAbs
def record (fields : List (String × Json)) : Json :=
  .object (fields.map fun (key, value) => (some key, value))

/-- An unsigned integer below `limit`. A minus sign is refused even in front of zero. -/
def nat? (limit : Nat) : Json → Option Nat
  | .whole false n => if n < limit then some n else none
  | _ => none

def bool? : Json → Option Bool
  | .bool b => some b
  | _ => none

def text? : Json → Option String
  | .string s => s
  | _ => none

/-- The last member with a key. -/
def member? (key : String) : Json → Option Json
  | .object members => (members.reverse.find? (·.1 = some key)).map (·.2)
  | _ => none

end Json

end MipsPipeline
