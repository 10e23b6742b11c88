import MipsPipeline.Proofs.InPlace
import MipsPipeline.Proofs.Request
import MipsPipeline.Service.Response
import MipsPipeline.Simulator.Call

/-
The service as a fold. A request that is answered with success does the operation that it asks for
and nothing else; every other request leaves the simulator as it was, so that only the operations
that were accepted count.
-/
namespace MipsPipeline

namespace Simulator

variable {s t : Simulator} {r : Request} {operation : Operation} {answer : Json}

/-- What an operation that succeeds makes of a simulator, and what is answered. -/
inductive Does (s : Simulator) : Operation → Simulator → Json → Prop where
  | load {text : List Char} {start : Word} {t : Simulator} {report : LoadReport}
      (loads : s.load .auto text start = .ok (t, report)) :
      Does s (.load text start) t report.toJson
  | step (n : Nat) :
      Does s (.step n) (s.run n) (.record [("cycles", .nat n), ("cycle", .nat (s.cycle + n))])
  | reset {options : ResetOptions} {t : Simulator} (resets : s.reset options = .ok t) :
      Does s (.reset options) t (.record [("ok", .bool true)])

section Operations

theorem cycle_run (s : Simulator) (n : Nat) : (s.run n).cycle = s.cycle + n := by
  induction n generalizing s with
  | zero => rfl
  | succ n ih => exact (ih s.step).trans (Nat.add_right_comm ..)

end Operations

section Requests

/-- The limit of a body is met by loads alone, and by all that exceed it. -/
theorem respond_payloadTooLarge_iff :
    (s.respond r).2.status = .payloadTooLarge ↔ r.Overlong := by
  rw [← Request.action_eq_bodyTooLong_iff, respond]
  cases r.action s.settings with
  | error refusal => cases refusal <;> simp [Refusal.response, Refusal.status]
  | ok action =>
    cases action with
    | preflight | health | state => simp [Response.reading]
    | operate operation =>
      dsimp only
      cases operation.perform s <;> simp [Refusal.response, Refusal.status]

/-- The requests whose operations are carried out. -/
def accepted (s : Simulator) (requests : List Request) : List Request :=
  ((requests.zip (s.respondAll requests).2).filter fun exchange =>
    ¬ exchange.1.ReadOnly ∧ exchange.2.status = .ok).map (·.1)

end Requests

end Simulator

end MipsPipeline
