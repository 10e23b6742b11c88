import MipsPipeline.Assembly.Encode

/-
Assembling a program. The lines are placed first, each instruction one word after the one before
it, which gives every label its address; then each line is encoded under the labels of the whole
program. Either all words come out or, in line order, all faults.
-/
namespace MipsPipeline.Assembly

/-- A line with its number and the address its instruction gets. -/
structure Placed where
  number : Nat
  address : Word
  line : Line
  /-- Labels of the line that had been defined before. -/
  repeated : List (List Char)
  deriving DecidableEq, Repr

/-- A program placed up to some line; the next instruction goes to `address`. -/
structure Placement where
  address : Word
  labels : Labels := {}
  placed : Array Placed := #[]

namespace Placement

/-- Defines a label at the current address, instead of where it was defined before; a label that
is not new is kept in the second list. -/
def define (address : Word) (known : Labels × Array (List Char)) (label : List Char) :
    Labels × Array (List Char) :=
  (known.1.insert label address,
    if known.1.contains label then known.2.push label else known.2)

def add (p : Placement) (line : Line) : Placement :=
  let (labels, repeated) := line.labels.foldl (define p.address) (p.labels, #[])
  { address := if line.body = [] then p.address else p.address.next
    labels := labels
    placed := p.placed.push ⟨p.placed.size + 1, p.address, line, repeated.toList⟩ }

def ofLines (base : Word) (lines : List Line) : Placement :=
  lines.foldl add { address := base }

end Placement

namespace Placed

/-- The encoded instruction of the line, if it has one. -/
def encoded? (labels : Labels) (p : Placed) : Option (Except Fault Word) :=
  if p.line.body = [] then none else some (encode labels p.address p.line.body)

/-- The faults of the line: its repeated labels, then its bad label or else its instruction. -/
def faults (p : Placed) (encoded? : Option (Except Fault Word)) : List Fault :=
  p.repeated.map (Fault.duplicateLabel <| String.ofList ·)
    ++ p.line.badLabel.toList.map (Fault.badLabel <| String.ofList ·)
    ++ match encoded? with
      | some (.error fault) => [fault]
      | _ => []

end Placed

def lines (source : List Char) : List Line := (Text.lines source).map Line.ofText

def assemble (source : List Char) (base : Word) : Except (List Diagnostic) (List Word) :=
  let p := Placement.ofLines base (lines source)
  let results := p.placed.toList.map fun line => (line, line.encoded? p.labels)
  let diagnostics := results.flatMap fun (line, encoded?) =>
    (line.faults encoded?).map (Diagnostic.mk line.number)
  if diagnostics = [] then
    .ok (results.filterMap fun (_, encoded?) => encoded?.bind (·.toOption))
  else .error diagnostics

end MipsPipeline.Assembly
