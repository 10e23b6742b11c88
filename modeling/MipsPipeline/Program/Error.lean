import MipsPipeline.Assembly.Diagnostic
import MipsPipeline.Instruction.Decode

/-
Why a program could not be loaded.
-/
namespace MipsPipeline

inductive LoadError where
  | unalignedStart (start : Word)
  | startOutOfBounds (start : Word) (memoryBytes : Nat)
  | empty
  | badHex (line : Nat) (text : String)
  /-- The word at a place in the program encodes nothing. -/
  | decode (index : Nat) (address : Word) (cause : DecodeError)
  | assembly (diagnostics : List Assembly.Diagnostic)
  deriving DecidableEq, Repr

def LoadError.message : LoadError → String
  | .unalignedStart start => "start address " ++ Text.hex 0 start.toNat ++ " is not word-aligned"
  | .startOutOfBounds start bytes =>
    "start address " ++ Text.hex 0 start.toNat ++ " is outside instruction memory ("
      ++ toString bytes ++ " bytes)"
  | .empty => "no instructions to load"
  | .badHex line text => "line " ++ toString line ++ ": invalid hex word '" ++ text ++ "'"
  | .decode index address cause =>
    "word " ++ toString index ++ " at " ++ Text.hex 0 address.toNat ++ ": " ++ cause.message
  | .assembly diagnostics =>
    "assembly failed: " ++ "; ".intercalate (diagnostics.map Assembly.Diagnostic.message)

end MipsPipeline
