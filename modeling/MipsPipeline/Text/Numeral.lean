/-
Numerals. A numeral is read in a radix from one or more digits of either case; a reader with a
limit also takes one plus sign in front and refuses a value that reaches the limit. Blanks, minus
signs and digit separators are refused everywhere.
-/
namespace MipsPipeline.Text

def digitValue? (c : Char) : Option Nat :=
  if '0' ≤ c ∧ c ≤ '9' then some (c.toNat - '0'.toNat)
  else if 'a' ≤ c ∧ c ≤ 'z' then some (c.toNat - 'a'.toNat + 10)
  else if 'A' ≤ c ∧ c ≤ 'Z' then some (c.toNat - 'A'.toNat + 10)
  else none

def digit? (radix : Nat) (c : Char) : Option Nat := (digitValue? c).filter (· < radix)

/-- Digits of a numeral, the most significant first, put behind a value. -/
def appendDigits (radix value : Nat) (digits : List Nat) : Nat :=
  digits.foldl (fun value digit => value * radix + digit) value

/-- The value of digits that are halved some times before they are put together: taken one by one
they would cost the length of a long numeral squared. -/
def ofDigits (radix : Nat) : Nat → List Nat → Nat
  | 0, digits => appendDigits radix 0 digits
  | halvings + 1, digits =>
    let split := digits.length / 2
    ofDigits radix halvings (digits.take split) * Nat.pow radix (digits.length - split)
      + ofDigits radix halvings (digits.drop split)

/-- The value of a text that is one or more digits. -/
def digits? (radix : Nat) : List Char → Option Nat
  | [] => none
  | text => (text.mapM (digit? radix)).map fun digits =>
    ofDigits radix (Nat.log2 (digits.length / 64)) digits

theorem appendDigits_eq (radix value : Nat) (digits : List Nat) :
    appendDigits radix value digits
      = value * Nat.pow radix digits.length + appendDigits radix 0 digits := by
  induction digits generalizing value with
  | nil => exact (Nat.mul_one value).symm
  | cons digit rest ih =>
    have shifted : appendDigits radix value (digit :: rest)
        = appendDigits radix (value * radix + digit) rest := rfl
    have alone : appendDigits radix 0 (digit :: rest)
        = appendDigits radix digit rest := by simp [appendDigits]
    have power : Nat.pow radix (rest.length + 1) = Nat.pow radix rest.length * radix := rfl
    rw [shifted, alone, ih, ih digit, List.length_cons, power, Nat.add_mul, Nat.add_assoc,
      Nat.mul_assoc, Nat.mul_comm radix]

/-- Halving is no part of the meaning. -/
theorem ofDigits_eq_appendDigits (radix halvings : Nat) (digits : List Nat) :
    ofDigits radix halvings digits = appendDigits radix 0 digits := by
  induction halvings generalizing digits with
  | zero => rfl
  | succ halvings ih =>
    have joined : appendDigits radix 0 digits
        = appendDigits radix (appendDigits radix 0 (digits.take (digits.length / 2)))
          (digits.drop (digits.length / 2)) := by
      simp only [appendDigits, ← List.foldl_append, List.take_append_drop]
    rw [joined, appendDigits_eq, List.length_drop, ← ih, ← ih]
    rfl

/-- The value, below `limit`, of digits behind at most one plus sign. -/
def numeral? (radix limit : Nat) (text : List Char) : Option Nat :=
  let unsigned := match text with
    | '+' :: rest => rest
    | _ => text
  (digits? radix unsigned).filter (· < limit)

/-- Splits off the mark `0x` or `0X`. -/
def hexMark? : List Char → Option (List Char)
  | '0' :: 'x' :: rest => some rest
  | '0' :: 'X' :: rest => some rest
  | _ => none

/-- Addresses are 32 bits wide. -/
def addressLimit : Nat := UInt32.size

/-- Counts are 64 bits wide. -/
def counterLimit : Nat := UInt64.size

/-- An address: hexadecimal behind the mark, decimal without it. -/
def address? (text : List Char) : Option (BitVec 32) :=
  let value? := match hexMark? text with
    | some digits => numeral? 16 addressLimit digits
    | none => numeral? 10 addressLimit text
  value?.map (BitVec.ofNat 32)

/-- A count in decimal. -/
def count? (text : List Char) : Option Nat := numeral? 10 counterLimit text

/-- Lower-case hexadecimal digits, with zeros in front up to `width` digits. -/
def hexDigits (width value : Nat) : List Char := (Nat.toDigits 16 value).leftpad width '0'

/-- Upper-case hexadecimal digits, with zeros in front up to `width` digits. -/
def upperHexDigits (width value : Nat) : List Char := (hexDigits width value).map Char.toUpper

def hex (width value : Nat) : String := String.ofList ('0' :: 'x' :: hexDigits width value)

def upperHex (width value : Nat) : String :=
  String.ofList ('0' :: 'x' :: upperHexDigits width value)

/-- The text moved to the right edge of a column. -/
def alignRight (width : Nat) (text : String) : String :=
  String.ofList (text.toList.leftpad width ' ')

/-- The text at the left edge of a column. -/
def alignLeft (width : Nat) (text : String) : String :=
  String.ofList (text.toList.rightpad width ' ')

/-- Equality of texts up to the case of ASCII letters. -/
def sameLetters (a b : List Char) : Bool := a.map Char.toLower = b.map Char.toLower

end MipsPipeline.Text
