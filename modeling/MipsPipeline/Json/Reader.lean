import MipsPipeline.Json.Token
import MipsPipeline.Json.Value

/-
Reading a JSON document. The containers that are still open lie on a stack, so nesting may be as
deep as the text is long.
-/
namespace MipsPipeline.Json

/-- An open container with what it holds so far, last one first; a member's key lies on top of its
object until the value is complete. -/
inductive Frame where
  | array (done : List Json)
  | object (done : List (Option String × Json))
  | member (key : Option String)

/-- What may come next. -/
inductive Expect where
  | value
  | valueOrClose
  | key
  | keyOrClose
  | colon (key : Option String)
  | commaOrClose
  | finish (document : Json)

/-- Hands a complete value to the container around it. -/
def complete (value : Json) : List Frame → Option (List Frame × Expect)
  | [] => some ([], .finish value)
  | .array done :: stack => some (.array (value :: done) :: stack, .commaOrClose)
  | .member key :: .object done :: stack =>
    some (.object ((key, value) :: done) :: stack, .commaOrClose)
  | _ => none

def close (token : Token) (stack : List Frame) : Option (List Frame × Expect) :=
  match token, stack with
  | .closeArray, .array done :: stack => complete (.array done.reverse) stack
  | .closeObject, .object done :: stack => complete (.object done.reverse) stack
  | _, _ => none

def startValue (token : Token) (stack : List Frame) : Option (List Frame × Expect) :=
  match token with
  | .openArray => some (.array [] :: stack, .valueOrClose)
  | .openObject => some (.object [] :: stack, .keyOrClose)
  | .null => complete .null stack
  | .bool b => complete (.bool b) stack
  | .whole negative n => complete (.whole negative n) stack
  | .fraction literal => complete (.fraction literal) stack
  | .string s => complete (.string s) stack
  | .closeArray | .closeObject | .colon | .comma => none

def readStep : List Frame × Expect → Token → Option (List Frame × Expect)
  | (stack, .value), token => startValue token stack
  | (stack, .valueOrClose), token => (close token stack).or (startValue token stack)
  | (stack, .key), .string key => some (stack, .colon key)
  | (_, .key), _ => none
  | (stack, .keyOrClose), .string key => some (stack, .colon key)
  | (stack, .keyOrClose), token => close token stack
  | (stack, .colon key), .colon => some (.member key :: stack, .value)
  | (_, .colon _), _ => none
  | (.array done :: stack, .commaOrClose), .comma => some (.array done :: stack, .value)
  | (.object done :: stack, .commaOrClose), .comma => some (.object done :: stack, .key)
  | (stack, .commaOrClose), token => close token stack
  | (_, .finish _), _ => none

/-- The document that a text holds, if it is one. -/
def read? (text : List Char) : Option Json := do
  let tokens ← scan? text
  match ← tokens.foldlM readStep ([], .value) with
  | ([], .finish document) => some document
  | _ => none

end MipsPipeline.Json
