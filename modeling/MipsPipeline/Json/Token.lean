import MipsPipeline.Text.Numeral

/-
The tokens of a JSON text. The scanner takes one character at a time and fails at the first one
that no token can hold: an unknown escape, a control character in a string, a misspelt literal, a
number that breaks the grammar.
-/
namespace MipsPipeline.Json

inductive Token where
  | openArray | closeArray | openObject | closeObject | colon | comma
  | null
  | bool (value : Bool)
  | whole (negative : Bool) (magnitude : Nat)
  | fraction (literal : String)
  | string (value : Option String)
  deriving Repr

/-- The characters of a string so far, last one first. A high surrogate waits in `high` for its
partner; `unpaired` records that some surrogate found none. -/
structure Quoted where
  chars : List Char := []
  high : Option Nat := none
  unpaired : Bool := false

namespace Quoted

/-- Takes the next UTF-16 unit of an escape, or the code point of a plain character. -/
def push (q : Quoted) (unit : Nat) : Quoted :=
  let isHigh := 0xD800 ≤ unit && unit < 0xDC00
  let isLow := 0xDC00 ≤ unit && unit < 0xE000
  match q.high, isLow with
  | some high, true =>
    { q with
      chars := Char.ofNat (0x10000 + (high - 0xD800) * 0x400 + (unit - 0xDC00)) :: q.chars
      high := none }
  | waiting, _ =>
    let q := { q with unpaired := q.unpaired || waiting.isSome || isLow, high := none }
    if isHigh then { q with high := some unit }
    else { q with chars := Char.ofNat unit :: q.chars }

def finish (q : Quoted) : Option String :=
  if q.unpaired || q.high.isSome then none else some (String.ofList q.chars.reverse)

end Quoted

/-- What the scanner is in the middle of. -/
inductive Scan where
  | between
  | quoted (q : Quoted)
  | escape (q : Quoted)
  | unit (q : Quoted) (digitsLeft value : Nat)
  | number (reversed : List Char)
  | word (reversed : List Char)

def isNumberChar (c : Char) : Bool := c.isDigit || "+-.eE".toList.contains c

/-- One or more digits, split off the front of a text. -/
def digitRun? (text : List Char) : Option (List Char × List Char) :=
  match text.takeWhile Char.isDigit with
  | [] => none
  | run => some (run, text.dropWhile Char.isDigit)

/-- The part of a number behind its integer part: a fraction, an exponent, both or nothing. -/
def isFractionPart (text : List Char) : Bool :=
  let isExponent : List Char → Bool
    | [] => true
    | e :: rest =>
      (e = 'e' || e = 'E') &&
        (match rest with
          | '+' :: digits | '-' :: digits => (digitRun? digits).any (·.2.isEmpty)
          | digits => (digitRun? digits).any (·.2.isEmpty))
  match text with
  | '.' :: rest => (digitRun? rest).any (isExponent ·.2)
  | _ => isExponent text

def number? (text : List Char) : Option Token :=
  let (negative, unsigned) := match text with
    | '-' :: rest => (true, rest)
    | _ => (false, text)
  match digitRun? unsigned with
  | none => none
  | some ('0' :: _ :: _, _) => none
  | some (run, []) => (Text.digits? 10 run).map (Token.whole negative)
  | some (_, rest) => if isFractionPart rest then some (.fraction (String.ofList text)) else none

def word? (text : List Char) : Option Token :=
  if text = "true".toList then some (.bool true)
  else if text = "false".toList then some (.bool false)
  else if text = "null".toList then some .null
  else none

def punctuation? : Char → Option Token
  | '[' => some .openArray | ']' => some .closeArray
  | '{' => some .openObject | '}' => some .closeObject
  | ':' => some .colon | ',' => some .comma
  | _ => none

def isSpace (c : Char) : Bool := c = ' ' || c = '\t' || c = '\n' || c = '\r'

def escaped? : Char → Option Nat
  | '\x22' => some 0x22 | '\\' => some 0x5C | '/' => some 0x2F
  | 'b' => some 0x08 | 'f' => some 0x0C | 'n' => some 0x0A | 'r' => some 0x0D | 't' => some 0x09
  | _ => none

/-- A character outside every token: it starts one, is one, or is space. -/
def scanFresh (tokens : List Token) (c : Char) : Option (List Token × Scan) :=
  if isSpace c then some (tokens, .between)
  else if c = '\x22' then some (tokens, .quoted {})
  else if c.isDigit || c = '-' then some (tokens, .number [c])
  else if c.isLower then some (tokens, .word [c])
  else (punctuation? c).map fun token => (token :: tokens, .between)

/-- Tokens are collected last one first. -/
def scanStep : List Token × Scan → Char → Option (List Token × Scan)
  | (tokens, .between), c => scanFresh tokens c
  | (tokens, .quoted q), c =>
    if c = '\x22' then some (.string q.finish :: tokens, .between)
    else if c = '\\' then some (tokens, .escape q)
    else if c.toNat < 0x20 then none
    else some (tokens, .quoted (q.push c.toNat))
  | (tokens, .escape q), c =>
    if c = 'u' then some (tokens, .unit q 4 0)
    else (escaped? c).map fun code => (tokens, .quoted (q.push code))
  | (tokens, .unit q digitsLeft value), c =>
    (Text.digit? 16 c).map fun digit =>
      let value := value * 16 + digit
      (tokens, if digitsLeft ≤ 1 then .quoted (q.push value) else .unit q (digitsLeft - 1) value)
  | (tokens, .number reversed), c =>
    if isNumberChar c then some (tokens, .number (c :: reversed))
    else (number? reversed.reverse).bind fun token => scanFresh (token :: tokens) c
  | (tokens, .word reversed), c =>
    if c.isLower then some (tokens, .word (c :: reversed))
    else (word? reversed.reverse).bind fun token => scanFresh (token :: tokens) c

def scan? (text : List Char) : Option (List Token) := do
  let (tokens, rest) ← text.foldlM scanStep ([], .between)
  match rest with
  | .between => some tokens.reverse
  | .number reversed => (number? reversed.reverse).map fun token => (token :: tokens).reverse
  | .word reversed => (word? reversed.reverse).map fun token => (token :: tokens).reverse
  | .quoted _ | .escape _ | .unit _ _ _ => none

end MipsPipeline.Json
