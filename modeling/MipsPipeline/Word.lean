/-
Machine words and the bit fields of an instruction word.

    register:  opcode[31:26] rs[25:21] rt[20:16] rd[15:11] shamt[10:6] funct[5:0]
    immediate: opcode[31:26] rs[25:21] rt[20:16] imm[15:0]
    jump:      opcode[31:26] target[25:0]

Addresses, registers, memory cells and instruction words are all words: addresses and encodings
are read unsigned, register and memory contents signed. Arithmetic wraps. Field values handed to
an encoder are reduced to the width of their field, so they cannot reach a neighbour.
-/
namespace MipsPipeline

abbrev Word := BitVec 32

namespace Word

/-- The low bits of a number. The power is a constant of the program where the width is one. -/
@[inline] def lowBits (width n : Nat) : BitVec width :=
  BitVec.ofNatLT (n % Nat.pow 2 width) (Nat.mod_lt n (Nat.pow_pos (by decide)))

theorem lowBits_eq_ofNat (width n : Nat) : lowBits width n = BitVec.ofNat width n := rfl

def opcode (w : Word) : BitVec 6 := lowBits 6 (w.toNat >>> 26)
def rs (w : Word) : BitVec 5 := lowBits 5 (w.toNat >>> 21)
def rt (w : Word) : BitVec 5 := lowBits 5 (w.toNat >>> 16)
def rd (w : Word) : BitVec 5 := lowBits 5 (w.toNat >>> 11)
def shamt (w : Word) : BitVec 5 := lowBits 5 (w.toNat >>> 6)
def funct (w : Word) : BitVec 6 := lowBits 6 w.toNat
def imm (w : Word) : BitVec 16 := lowBits 16 w.toNat
def target (w : Word) : BitVec 26 := lowBits 26 w.toNat

theorem opcode_eq (w : Word) : w.opcode = w.extractLsb' 26 6 := rfl
theorem rs_eq (w : Word) : w.rs = w.extractLsb' 21 5 := rfl
theorem rt_eq (w : Word) : w.rt = w.extractLsb' 16 5 := rfl
theorem rd_eq (w : Word) : w.rd = w.extractLsb' 11 5 := rfl
theorem shamt_eq (w : Word) : w.shamt = w.extractLsb' 6 5 := rfl
theorem funct_eq (w : Word) : w.funct = w.extractLsb' 0 6 := rfl
theorem imm_eq (w : Word) : w.imm = w.extractLsb' 0 16 := rfl
theorem target_eq (w : Word) : w.target = w.extractLsb' 0 26 := rfl

def ofRegisterFields (rs rt rd shamt funct : Nat) : Word :=
  0#6 ++ BitVec.ofNat 5 rs ++ BitVec.ofNat 5 rt ++ BitVec.ofNat 5 rd
    ++ BitVec.ofNat 5 shamt ++ BitVec.ofNat 6 funct

def ofImmediateFields (opcode rs rt imm : Nat) : Word :=
  BitVec.ofNat 6 opcode ++ BitVec.ofNat 5 rs ++ BitVec.ofNat 5 rt ++ BitVec.ofNat 16 imm

def ofJumpFields (opcode target : Nat) : Word :=
  BitVec.ofNat 6 opcode ++ BitVec.ofNat 26 target

/-- Number of different words. -/
def limit : Nat := UInt32.size

/-- Bytes in a word. -/
def bytes : Nat := 4

def Aligned (address : Word) : Prop := address.toNat % bytes = 0

instance (address : Word) : Decidable (Aligned address) :=
  inferInstanceAs (Decidable (address.toNat % bytes = 0))

/-- Index of the word that holds the byte at an address. -/
def index (address : Word) : Nat := address.toNat / bytes

/-- Byte address of the word with an index. -/
def ofIndex (i : Nat) : Word := (UInt32.ofNat (i * bytes)).toBitVec

/-- Address of the word after the one at an address; the last word is followed by address 0. -/
def next (address : Word) : Word := (UInt32.ofBitVec address + 4).toBitVec

theorem ofIndex_eq (i : Nat) : ofIndex i = BitVec.ofNat 32 (i * bytes) := rfl
theorem next_eq (address : Word) : address.next = address + 4#32 := rfl

end Word

/-- Size in bytes of a memory of `cells` words, as a 32-bit quantity: the count is taken modulo
`2 ^ 32` and the product stops at the largest word. -/
def memoryBytes (cells : Nat) : Nat := min (cells % Word.limit * Word.bytes) (Word.limit - 1)

end MipsPipeline
