/-
UTF-8. Bytes are read one at a time; between two characters nothing is pending, and inside one the
reader knows how many bytes are missing and which ones may come next. Bytes that begin no character
are a fault, of the length of what was read before it was clear, and the byte that made it clear
is read again as a beginning.
-/
namespace MipsPipeline.Text.Utf8

/-- A place where the bytes are no character, by the index of its first byte. -/
inductive Fault where
  | invalid (index length : Nat)
  /-- The bytes end inside a character. -/
  | incomplete (index : Nat)
  deriving DecidableEq, Repr

def Fault.message : Fault → String
  | .invalid index length =>
    "invalid utf-8 sequence of " ++ toString length ++ " bytes from index " ++ toString index
  | .incomplete index => "incomplete utf-8 byte sequence from index " ++ toString index

/-- A character of which one byte or more was read and `missing` more must follow. The next one
is at least `low` and at most `high`. -/
structure Unfinished where
  bits : Nat
  seen : Nat := 1
  missing : Nat
  low : Nat := 0x80
  high : Nat := 0xBF
  deriving DecidableEq, Repr

/-- What a byte above ASCII begins. The ranges leave out long forms, surrogates, and everything
behind the last code point. -/
def begin? (b : Nat) : Option Unfinished :=
  if 0xC2 ≤ b ∧ b ≤ 0xDF then some { bits := b % 0x20, missing := 1 }
  else if b = 0xE0 then some { bits := 0, missing := 2, low := 0xA0 }
  else if b = 0xED then some { bits := 0xD, missing := 2, high := 0x9F }
  else if 0xE1 ≤ b ∧ b ≤ 0xEF then some { bits := b % 0x10, missing := 2 }
  else if b = 0xF0 then some { bits := 0, missing := 3, low := 0x90 }
  else if 0xF1 ≤ b ∧ b ≤ 0xF3 then some { bits := b % 0x08, missing := 3 }
  else if b = 0xF4 then some { bits := 4, missing := 3, high := 0x8F }
  else none

structure Reader where
  /-- Number of bytes read. -/
  index : Nat := 0
  pending : Option Unfinished := none
  /-- Characters and faults read, the newest first. -/
  items : List (Except Fault Char) := []

namespace Reader

/-- Reads a byte between two characters. -/
def first (r : Reader) (b : Nat) : Reader :=
  if b < 0x80 then { r with pending := none, items := .ok (Char.ofNat b) :: r.items }
  else match begin? b with
    | some p => { r with pending := some p }
    | none => { r with pending := none, items := .error (.invalid r.index 1) :: r.items }

/-- Reads a byte after those of a character that is not finished. -/
def continued (r : Reader) (p : Unfinished) (b : Nat) : Reader :=
  let bits := p.bits * 0x40 + b % 0x40
  if b < p.low ∨ p.high < b then
    { r with items := .error (.invalid (r.index - p.seen) p.seen) :: r.items }.first b
  else if p.missing = 1 then
    { r with pending := none, items := .ok (Char.ofNat bits) :: r.items }
  else
    { r with pending := some { bits := bits, seen := p.seen + 1, missing := p.missing - 1 } }

def read (r : Reader) (b : UInt8) : Reader :=
  let next := match r.pending with
    | none => r.first b.toNat
    | some p => r.continued p b.toNat
  { next with index := r.index + 1 }

/-- All characters and faults, in order, when no more bytes follow. -/
def finish (r : Reader) : List (Except Fault Char) :=
  match r.pending with
  | none => r.items.reverse
  | some p => (.error (.incomplete (r.index - p.seen)) :: r.items).reverse

end Reader

def items (bytes : List UInt8) : List (Except Fault Char) := (bytes.foldl Reader.read {}).finish

/-- The text, or the first fault. -/
def decode (bytes : List UInt8) : Except Fault (List Char) := (items bytes).mapM id

/-- The text, with the replacement character U+FFFD in the place of each fault. -/
def decodeLossy (bytes : List UInt8) : List Char :=
  (items bytes).map fun
    | .ok c => c
    | .error _ => '\uFFFD'

def encode (text : List Char) : List UInt8 := text.flatMap String.utf8EncodeChar

end MipsPipeline.Text.Utf8
