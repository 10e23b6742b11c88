import MipsPipeline.Machine
import MipsPipeline.Program.Source

/-
Loading a program into code memory, and a machine with it. Everything is checked before memory is
touched: the start address, then the text, then every word. The program replaces whatever was
loaded; words that fall outside memory are skipped and reported.
-/
namespace MipsPipeline

structure LoadReport where
  /-- Number of words stored. -/
  loaded : Nat
  start : Word
  /-- Addresses of the words that were skipped. -/
  skipped : List Word
  deriving DecidableEq, Repr

namespace LoadReport

/-- Address of the last word stored. -/
def last (r : LoadReport) : Word := r.start + Word.ofIndex (r.loaded - 1)

def warnings (r : LoadReport) : List String :=
  r.skipped.map fun address =>
    "Skipping out-of-bounds instruction at address " ++ toString address.toNat

end LoadReport

namespace CodeMemory

def checkStart (m : CodeMemory) (start : Word) : Except LoadError Unit :=
  if ¬ start.Aligned then .error (.unalignedStart start)
  else if m.bytes ≤ start.toNat then .error (.startOutOfBounds start m.bytes)
  else .ok ()

/-- The instructions of a program with their addresses, or the first word that encodes none. -/
def decodeAt (start : Word) (words : List Word) : Except LoadError (List (Word × Instruction)) :=
  words.zipIdx.mapM fun (w, i) =>
    let address := start + Word.ofIndex i
    match Instruction.decode w with
    | .ok inst => .ok (address, inst)
    | .error cause => .error (.decode i address cause)

def storeAll (m : CodeMemory) (program : List (Word × Instruction)) : CodeMemory :=
  program.foldl (fun m (address, inst) => m.store address inst) m

def loadWords (m : CodeMemory) (words : List Word) (start : Word) :
    Except LoadError (CodeMemory × LoadReport) := do
  m.checkStart start
  if words = [] then throw .empty
  let program ← decodeAt start words
  let (inside, outside) := program.partition (m.Contains ·.1)
  pure (m.clear.storeAll inside, ⟨inside.length, start, outside.map (·.1)⟩)

def loadText (m : CodeMemory) (format : SourceFormat) (text : List Char) (start : Word) :
    Except LoadError (CodeMemory × LoadReport) := do
  m.checkStart start
  m.loadWords (← format.words text start) start

end CodeMemory

namespace Machine

/-- Installs a loaded program and points the program counter at its start. -/
def install (m : Machine) (loaded : CodeMemory × LoadReport) : Machine × LoadReport :=
  ({ m with code := loaded.1, pc := loaded.2.start }, loaded.2)

def loadWords (m : Machine) (words : List Word) (start : Word) :
    Except LoadError (Machine × LoadReport) :=
  (m.code.loadWords words start).map m.install

def loadText (m : Machine) (format : SourceFormat) (text : List Char) (start : Word) :
    Except LoadError (Machine × LoadReport) :=
  (m.code.loadText format text start).map m.install

end Machine

end MipsPipeline
