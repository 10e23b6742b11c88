import MipsPipeline.Json.Value
import MipsPipeline.Text.Numeral

/-
Writing JSON: on one line without spaces, or over several lines with two blanks a level. A string
that is no text is written with a replacement character in its place.
-/
namespace MipsPipeline.Json

def escape (c : Char) : String :=
  match c with
  | '\x22' => "\\\""
  | '\\' => "\\\\"
  | '\n' => "\\n"
  | '\r' => "\\r"
  | '\t' => "\\t"
  | '\x08' => "\\b"
  | '\x0c' => "\\f"
  | c => if c.toNat < 0x20 then "\\u" ++ String.ofList (Text.hexDigits 4 c.toNat) else c.toString

def quote (out : String) (s : String) : String :=
  (s.foldl (fun out c => out ++ escape c) (out ++ "\"")) ++ "\""

def writeString (out : String) (s : Option String) : String := quote out (s.getD "\uFFFD")

def writeWhole (out : String) (negative : Bool) (magnitude : Nat) : String :=
  (if negative then out ++ "-" else out) ++ toString magnitude

mutual

/-- Appends a value to `out`. -/
def writeCompact (out : String) : Json → String
  | .null => out ++ "null"
  | .bool b => out ++ toString b
  | .whole negative n => writeWhole out negative n
  | .fraction literal => out ++ literal
  | .string s => writeString out s
  | .array items => writeItems (out ++ "[") "" items ++ "]"
  | .object members => writeMembers (out ++ "\x7b") "" members ++ "\x7d"

def writeItems (out separator : String) : List Json → String
  | [] => out
  | item :: rest => writeItems (writeCompact (out ++ separator) item) "," rest

def writeMembers (out separator : String) : List (Option String × Json) → String
  | [] => out
  | (key, value) :: rest =>
    writeMembers (writeCompact (writeString (out ++ separator) key ++ ":") value) "," rest

end

mutual

/-- Appends a value to `out`; `newline` is a line feed with the blanks of the current level. -/
def writeIndented (newline out : String) : Json → String
  | .null => out ++ "null"
  | .bool b => out ++ toString b
  | .whole negative n => writeWhole out negative n
  | .fraction literal => out ++ literal
  | .string s => writeString out s
  | .array [] => out ++ "[]"
  | .array items => writeIndentedItems (newline ++ "  ") (out ++ "[") "" items ++ newline ++ "]"
  | .object [] => out ++ "\x7b\x7d"
  | .object members =>
    writeIndentedMembers (newline ++ "  ") (out ++ "\x7b") "" members ++ newline ++ "\x7d"

def writeIndentedItems (newline out separator : String) : List Json → String
  | [] => out
  | item :: rest =>
    writeIndentedItems newline (writeIndented newline (out ++ separator ++ newline) item) "," rest

def writeIndentedMembers (newline out separator : String) : List (Option String × Json) → String
  | [] => out
  | (key, value) :: rest =>
    let named := writeString (out ++ separator ++ newline) key ++ ": "
    writeIndentedMembers newline (writeIndented newline named value) "," rest

end

def compact (value : Json) : String := writeCompact "" value
def indented (value : Json) : String := writeIndented "\n" "" value

end MipsPipeline.Json
