import MipsPipeline.Text.Utf8

/-
Files by name, and why one cannot be read. They come in as a function from names to contents, so
that a command line has one outcome for the same files.
-/
namespace MipsPipeline

/-- What the system reports when a file cannot be opened or read. -/
inductive SystemError where
  | missing
  | unreadable
  | forbidden
  | notDirectory
  | isDirectory
  | nameTooLong
  | tooManyLinks
  deriving DecidableEq, Repr

namespace SystemError

def all : List SystemError :=
  [.missing, .unreadable, .forbidden, .notDirectory, .isDirectory, .nameTooLong, .tooManyLinks]

def code : SystemError → Nat
  | .missing => 2
  | .unreadable => 5
  | .forbidden => 13
  | .notDirectory => 20
  | .isDirectory => 21
  | .nameTooLong => 36
  | .tooManyLinks => 40

def reason : SystemError → String
  | .missing => "No such file or directory"
  | .unreadable => "Input/output error"
  | .forbidden => "Permission denied"
  | .notDirectory => "Not a directory"
  | .isDirectory => "Is a directory"
  | .nameTooLong => "File name too long"
  | .tooManyLinks => "Too many levels of symbolic links"

def message (e : SystemError) : String := e.reason ++ " (os error " ++ toString e.code ++ ")"

def ofCode? (code : Nat) : Option SystemError := all.find? (·.code = code)

theorem ofCode?_code (e : SystemError) : ofCode? e.code = some e := by
  cases e <;> rfl

end SystemError

inductive FileError where
  | system (cause : SystemError)
  | notText
  deriving DecidableEq, Repr

def FileError.message : FileError → String
  | .system cause => cause.message
  | .notText => "stream did not contain valid UTF-8"

abbrev Files : Type := String → Except FileError (List UInt8)

def Files.text (files : Files) (name : String) : Except FileError (List Char) := do
  (Text.Utf8.decode (← files name)).mapError fun _ => .notText

end MipsPipeline
