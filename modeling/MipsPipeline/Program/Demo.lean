import MipsPipeline.Word
import MipsPipeline.Text.Numeral

/-
Small programs to look at, loaded at address 0.
-/
namespace MipsPipeline

structure Demo where
  name : String
  description : String
  words : List Word
  deriving Repr

namespace Demo

/-- In assembly: `addi $t0, $zero, 5`, `addi $t1, $t0, 3`, `add $t2, $t0, $t1`. -/
def arith : Demo where
  name := "arith"
  description := "dependent ALU chain resolved by forwarding"
  words := [0x20080005, 0x21090003, 0x01095020]

/-- Stores a word, loads it back and uses it at once. -/
def loadUse : Demo where
  name := "loaduse"
  description := "store, load, and a load-use stall"
  words := [0x2008000A, 0x20090014, 0xAD090004, 0x8D0A0004, 0x01485820, 0x016C6020, 0x218D0001]

/-- One branch that is not taken and one that is. -/
def branch : Demo where
  name := "branch"
  description := "untaken then taken branch with flushes"
  words := [0x20080001, 0x20090002, 0x11090002, 0x200A0003, 0x11080002]

def all : List Demo := [arith, loadUse, branch]

/-- Names are matched in any case. -/
def find? (name : String) : Option Demo :=
  all.find? fun demo => Text.sameLetters demo.name.toList name.toList

end Demo

end MipsPipeline
