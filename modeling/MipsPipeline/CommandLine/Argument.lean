import MipsPipeline.Text.Piece

/-
The arguments of a command: one operand and named options, read from left to right. An option is
written `--name value` or `--name=value`, a switch `--name`, and none of them may be given twice.
Behind a lone `--` every argument is an operand. A request for help ends the reading, so that only
faults in front of it count.
-/
namespace MipsPipeline

inductive Argument where
  /-- The mark behind which only operands stand. -/
  | endOfOptions
  | long (name : List Char) (value? : Option (List Char))
  | short (letters : List Char)
  | operand
  deriving DecidableEq, Repr

namespace Argument

/-- A lone minus sign is an operand. -/
def ofText (text : String) : Argument :=
  match text.toList with
  | ['-', '-'] => .endOfOptions
  | '-' :: '-' :: body => match Text.cut? '=' body with
    | some (name, value) => .long name (some value)
    | none => .long body none
  | '-' :: letter :: letters => .short (letter :: letters)
  | _ => .operand

/-- Switches of one letter can be run together, and the first one decides. -/
def Asks (a : Argument) (letter : Char) (name : String) : Prop :=
  match a with
  | .long given none => given = name.toList
  | .short letters => letters.head? = some letter
  | _ => False

instance (a : Argument) (letter : Char) (name : String) : Decidable (a.Asks letter name) := by
  unfold Asks
  split <;> infer_instance

def AsksHelp (a : Argument) : Prop := a.Asks 'h' "help"
def AsksVersion (a : Argument) : Prop := a.Asks 'V' "version"

instance (a : Argument) : Decidable a.AsksHelp := inferInstanceAs (Decidable (a.Asks ..))
instance (a : Argument) : Decidable a.AsksVersion := inferInstanceAs (Decidable (a.Asks ..))

end Argument

/-- What an option does to the options read so far: nothing comes back if it is refused. -/
inductive Setter (α : Type) where
  | switch (set : α → Option α)
  | valued (set : α → List Char → Option α)

/-- Puts a value where there is none yet. -/
def Setter.once (current read? : Option β) (put : β → α) : Option α :=
  if current.isSome then none else read?.map put

structure Grammar (α : Type) where
  /-- Whether a text can be the operand. -/
  accepts : String → Bool
  setter? : String → Option (Setter α)

inductive Reading (α : Type) where
  | help
  | command (operand : String) (options : α)
  deriving DecidableEq, Repr

namespace Grammar

/-- Takes the operand; there is only one. -/
def operand? (g : Grammar α) (given? : Option String) (text : String) : Option (Option String) :=
  if given?.isNone ∧ g.accepts text then some (some text) else none

def finish? (given? : Option String) (options : α) : Option (Reading α) :=
  given?.map fun operand => .command operand options

/-- Reads all arguments, given the operand and the options read so far. -/
def read? (g : Grammar α) (given? : Option String) (options : α) :
    List String → Option (Reading α)
  | [] => finish? given? options
  | text :: rest =>
    let argument := Argument.ofText text
    if argument.AsksHelp then some .help
    else match argument with
      | .endOfOptions => do finish? (← rest.foldlM g.operand? given?) options
      | .operand => do g.read? (← g.operand? given? text) options rest
      | .short _ => none
      | .long name value? => match g.setter? (String.ofList name), value?, rest with
        | some (.switch set), none, rest => do g.read? given? (← set options) rest
        | some (.valued set), some value, rest => do g.read? given? (← set options value) rest
        | some (.valued set), none, value :: rest =>
          if Argument.ofText value = .operand then do
            g.read? given? (← set options value.toList) rest
          else none
        | _, _, _ => none

end Grammar

end MipsPipeline
