import MipsPipeline.Service.Query
import MipsPipeline.Simulator.Basic

/-
Requests to a simulator that is offered as a service, and the actions they ask for. A parameter
that is left out or blank means its default, and a request is read completely before anything is
done.

The handlers of the service stand behind libraries, whose part is taken from their documentation:
- a path is compared as it is written, what answers GET answers HEAD too, and a preflight reaches
  no handler (`Route.ofPath?`, `Route.methods`, `Request.action`);
- a query is taken apart, and refused for a known name that stands twice, before the body is taken
  in (`Query.ofTarget`, `Query.repeated?`);
- the body for a handler that asks for one has a limit (`Request.takeIn`); only a load asks;
- what is no target, or is too long for one, is not passed on, and nothing is said of it here.
The service's own are the routes with their names, and what the handlers make of values and bytes
(`Query.present?`, `Query.parameter`, `Query.flag`, `Operation.ofLoad`, `Operation.ofStep`,
`Operation.ofReset`).
-/
namespace MipsPipeline

inductive Method where
  | get
  | head
  | post
  | options
  | other
  deriving DecidableEq, Repr

def Method.ofText : String → Method
  | "GET" => .get
  | "HEAD" => .head
  | "POST" => .post
  | "OPTIONS" => .options
  | _ => .other

inductive Route where
  | health
  | state
  | load
  | step
  | reset
  deriving DecidableEq, Repr

namespace Route

def all : List Route := [.health, .state, .load, .step, .reset]

def path : Route → String
  | .health => "/api/health"
  | .state => "/api/state"
  | .load => "/api/load"
  | .step => "/api/step"
  | .reset => "/api/reset"

def ofPath? (path : List Char) : Option Route := all.find? (·.path.toList = path)

/-- What is read can be asked for without the body of the answer; all else is posted. -/
def methods : Route → List Method
  | .health | .state => [.get, .head]
  | .load | .step | .reset => [.post]

/-- The names of a query that mean something. -/
def parameters : Route → List String
  | .health | .state => []
  | .load => ["start"]
  | .step => ["cycles"]
  | .reset => ["clearRegs", "clearMem", "pc"]

end Route

structure Request where
  method : Method
  target : List Char
  body : List UInt8 := []
  deriving DecidableEq, Repr

/-- A body of this many bytes is still taken in. -/
def Request.bodyLimit : Nat := 2097152

/-- Why a request was not carried out. -/
inductive Refusal where
  | notFound
  | methodNotAllowed
  | repeated (name : String)
  | invalid (name : String) (value : List Char)
  | tooManyCycles (requested limit : Nat)
  | bodyTooLong
  | notText (fault : Text.Utf8.Fault)
  | load (cause : LoadError)
  deriving DecidableEq, Repr

def Refusal.message : Refusal → String
  | .notFound => "not found"
  | .methodNotAllowed => ""
  | .repeated name => "Failed to deserialize query string: duplicate field `" ++ name ++ "`"
  | .invalid name value => "invalid " ++ name ++ " '" ++ String.ofList value ++ "'"
  | .tooManyCycles requested limit =>
    "cycles " ++ toString requested ++ " exceeds the limit of " ++ toString limit
      ++ " per request"
  | .bodyTooLong => "Failed to buffer the request body: length limit exceeded"
  | .notText fault => "request body is not valid UTF-8: " ++ fault.message
  | .load cause => cause.message

/-- The bytes of a body, for a handler. A body that is too long is refused whatever it says. -/
def Request.takeIn (body : List UInt8) : Except Refusal (List UInt8) :=
  if body.length ≤ bodyLimit then .ok body else .error .bodyTooLong

/-- What changes a simulator. -/
inductive Operation where
  | load (text : List Char) (start : Word)
  | step (cycles : Nat)
  | reset (options : ResetOptions)
  deriving DecidableEq, Repr

inductive Action where
  /-- Ask what is allowed, without doing it. -/
  | preflight
  | health
  | state
  | operate (operation : Operation)
  deriving DecidableEq, Repr

namespace Query

/-- A parameter in one reading, or its default. -/
def parameter (q : Query) (name : String) (read? : List Char → Option α) (default : α) :
    Except Refusal α :=
  match q.present? name with
  | none => .ok default
  | some text => match read? text with
    | some value => .ok value
    | none => .error (.invalid name text)

/-- A parameter that says yes; whatever else it says is a no. -/
def flag (q : Query) (name : String) : Bool :=
  (q.present? name).any fun text =>
    ["1", "true", "yes"].any fun yes => Text.sameLetters text yes.toList

end Query

namespace Operation

def ofLoad (settings : Settings) (q : Query) (body : List UInt8) : Except Refusal Operation := do
  let bytes ← Request.takeIn body
  let text ← (Text.Utf8.decode bytes).mapError .notText
  .load text <$> q.parameter "start" Text.address? settings.startPc

/-- At least one cycle is run. -/
def ofStep (settings : Settings) (q : Query) : Except Refusal Operation := do
  let cycles := max (← q.parameter "cycles" Text.count? 1) 1
  if settings.maxStepCycles < cycles then throw (.tooManyCycles cycles settings.maxStepCycles)
  pure (.step cycles)

def ofReset (settings : Settings) (q : Query) : Except Refusal Operation := do
  let pc ← q.parameter "pc" Text.address? settings.startPc
  pure (.reset ⟨q.flag "clearRegs", q.flag "clearMem", pc⟩)

end Operation

/-- The action of a request that its route allows. -/
def Route.action (r : Route) (settings : Settings) (q : Query) (body : List UInt8) :
    Except Refusal Action :=
  match q.repeated? r.parameters with
  | some name => .error (.repeated name)
  | none => match r with
    | .health => .ok .health
    | .state => .ok .state
    | .load => .operate <$> Operation.ofLoad settings q body
    | .step => .operate <$> Operation.ofStep settings q
    | .reset => .operate <$> Operation.ofReset settings q

def Request.action (r : Request) (settings : Settings) : Except Refusal Action :=
  let (path, query) := Query.ofTarget r.target
  if r.method = .options then .ok .preflight
  else match Route.ofPath? path with
    | none => .error .notFound
    | some route =>
      if r.method ∈ route.methods then route.action settings query r.body
      else .error .methodNotAllowed

end MipsPipeline
