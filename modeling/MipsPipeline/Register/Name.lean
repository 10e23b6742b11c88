import MipsPipeline.Text.Blank
import MipsPipeline.Text.Numeral

/-
Register names. A register is written with a dollar sign and either its conventional name or its
number, in any case and with blanks around it. `$s8` is a second name of `$fp`.
-/
namespace MipsPipeline.Register

abbrev count : Nat := 32

/-- The register that `jal` writes. -/
def link : Nat := 31

/-- Conventional names in the order of the registers. -/
def names : List String :=
  ["zero", "at", "v0", "v1", "a0", "a1", "a2", "a3",
   "t0", "t1", "t2", "t3", "t4", "t5", "t6", "t7",
   "s0", "s1", "s2", "s3", "s4", "s5", "s6", "s7",
   "t8", "t9", "k0", "k1", "gp", "sp", "fp", "ra"]

/-- The name with its dollar sign; a question mark stands for an index that is no register. -/
def name (index : Nat) : String := "$" ++ names.getD index "?"

/-- A number is tried first, and one that is too large is no register under any name. -/
def index? (text : List Char) : Option Nat :=
  match (Text.trim text).map Char.toLower with
  | '$' :: body =>
    match Text.count? body with
    | some n => if n < count then some n else none
    | none => if body = "s8".toList then some 30 else names.findIdx? (·.toList = body)
  | _ => none

end MipsPipeline.Register
