/-
What can be wrong with a line of assembly.
-/
namespace MipsPipeline.Assembly

inductive Fault where
  | unknownMnemonic (name : String)
  | operandCount (mnemonic : String) (expected found : Nat)
  | badRegister (operand : String)
  | badImmediate (operand : String)
  /-- A branch or jump names a label that no line defines. -/
  | undefinedLabel (name : String)
  /-- The label has been defined before. -/
  | duplicateLabel (name : String)
  /-- The text in front of a colon is no label. -/
  | badLabel (text : String)
  deriving DecidableEq, Repr

def Fault.message : Fault → String
  | .unknownMnemonic name => "unknown instruction '" ++ name ++ "'"
  | .operandCount mnemonic expected found =>
    "'" ++ mnemonic ++ "' expects " ++ toString expected ++ " operand(s), found " ++ toString found
  | .badRegister operand => "unknown register '" ++ operand ++ "'"
  | .badImmediate operand => "invalid immediate '" ++ operand ++ "'"
  | .undefinedLabel name => "undefined label '" ++ name ++ "'"
  | .duplicateLabel name => "duplicate label '" ++ name ++ "'"
  | .badLabel text => "invalid label '" ++ text ++ "'"

/-- A fault on a line; lines are counted from 1. -/
structure Diagnostic where
  line : Nat
  fault : Fault
  deriving DecidableEq, Repr

def Diagnostic.message (d : Diagnostic) : String :=
  "line " ++ toString d.line ++ ": " ++ d.fault.message

end MipsPipeline.Assembly
