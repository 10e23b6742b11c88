import MipsPipeline.Service.Request
import MipsPipeline.Simulator.View

/-
Answers to requests. A request that is refused, or whose operation fails, leaves the simulator as
it was.

Three refusals come from the libraries in front of the handlers (`methodNotAllowed`, `repeated`,
`bodyTooLong`), with the status and the text that these document, and not as JSON. It is the
libraries too that spare a HEAD request the body. All other answers are the service's own.
-/
namespace MipsPipeline

inductive Status where
  | ok
  | noContent
  | badRequest
  | notFound
  | methodNotAllowed
  | payloadTooLarge
  deriving DecidableEq, Repr

def Status.code : Status → Nat
  | .ok => 200
  | .noContent => 204
  | .badRequest => 400
  | .notFound => 404
  | .methodNotAllowed => 405
  | .payloadTooLarge => 413

inductive Body where
  | text (content : String)
  | json (value : Json)
  deriving Repr

structure Response where
  status : Status
  body : Body
  deriving Repr

/-- The answer to a request for something to read: a HEAD request is spared the body. -/
def Response.reading (m : Method) (body : Body) : Response :=
  ⟨.ok, if m = .head then .text "" else body⟩

namespace Refusal

def status : Refusal → Status
  | .notFound => .notFound
  | .methodNotAllowed => .methodNotAllowed
  | .bodyTooLong => .payloadTooLarge
  | _ => .badRequest

/-- A request that is not even taken in is answered in plain text. -/
def body (r : Refusal) : Body :=
  match r with
  | .methodNotAllowed | .repeated _ | .bodyTooLong => .text r.message
  | _ => .json (.record [("error", .text r.message)])

def response (r : Refusal) : Response := ⟨r.status, r.body⟩

end Refusal

/-- Carries out an operation; the answer tells what was done. -/
def Operation.perform (s : Simulator) : Operation → Except LoadError (Simulator × Json)
  | .load text start => (s.load .auto text start).map fun (t, report) => (t, report.toJson)
  | .step n =>
    let t := s.run n
    .ok (t, .record [("cycles", .nat n), ("cycle", .nat t.cycle)])
  | .reset options => (s.reset options).map fun t => (t, .record [("ok", .bool true)])

namespace Simulator

def respond (s : Simulator) (r : Request) : Simulator × Response :=
  match r.action s.settings with
  | .error refusal => (s, refusal.response)
  | .ok .preflight => (s, ⟨.noContent, .text ""⟩)
  | .ok .health => (s, .reading r.method (.text "OK"))
  | .ok .state => (s, .reading r.method (.json s.view.toJson))
  | .ok (.operate operation) => match operation.perform s with
    | .ok (t, answer) => (t, ⟨.ok, .json answer⟩)
    | .error cause => (s, (Refusal.load cause).response)

/-- The answers to requests that arrive one after the other. -/
def respondAll (s : Simulator) : List Request → Simulator × List Response
  | [] => (s, [])
  | r :: rest =>
    let (t, response) := s.respond r
    let (u, responses) := t.respondAll rest
    (u, response :: responses)

end Simulator

end MipsPipeline
