import Mathlib.Data.List.Nodup
import MipsPipeline.Proofs.Fallible
import MipsPipeline.Service.Request

/-
What a request asks for, without saying how it is read: the operation of its path, with parameters
that are given once and stand for their defaults if they are left out or blank.
-/
namespace MipsPipeline

/-- The value that a query gives to a name, in one reading. -/
inductive Query.Gives {α : Type} (q : Query) (name : String) (read? : List Char → Option α)
    (default : α) : α → Prop where
  | left_out (blank : ∀ text, q.value? name = some text → Text.trim text = []) :
      Gives q name read? default default
  | given {text : List Char} {value : α} (stands : q.value? name = some text)
      (something : Text.trim text ≠ []) (reads : read? (Text.trim text) = some value) :
      Gives q name read? default value

/-- None of the names is given a second time. -/
def Query.Distinct (q : Query) (names : List String) : Prop :=
  ∀ name ∈ names, q.pairs.countP (·.1 = name.toList) ≤ 1

/-- The operation that a route offers, with the parameters and the body of a request. -/
inductive Route.Asks (settings : Settings) (q : Query) (body : List UInt8) :
    Route → Operation → Prop where
  | load {text : List Char} {start : Word} (fits : body.length ≤ Request.bodyLimit)
      (decodes : Text.Utf8.decode body = .ok text)
      (starts : q.Gives "start" Text.address? settings.startPc start) :
      Asks settings q body .load (.load text start)
  | step {n : Nat} (counts : q.Gives "cycles" Text.count? 1 n)
      (allowed : max 1 n ≤ settings.maxStepCycles) :
      Asks settings q body .step (.step (max 1 n))
  | reset {pc : Word} (points : q.Gives "pc" Text.address? settings.startPc pc) :
      Asks settings q body .reset (.reset ⟨q.flag "clearRegs", q.flag "clearMem", pc⟩)

structure Request.Asks (r : Request) (settings : Settings) (operation : Operation) : Prop where
  posted : r.method = .post
  offered : ∃ route : Route, (Query.ofTarget r.target).1 = route.path.toList ∧
    (Query.ofTarget r.target).2.Distinct route.parameters ∧
    route.Asks settings (Query.ofTarget r.target).2 r.body operation

/-- A load that is refused for nothing but the length of its body. -/
structure Request.Overlong (r : Request) : Prop where
  posted : r.method = .post
  offered : (Query.ofTarget r.target).1 = Route.load.path.toList
  distinct : (Query.ofTarget r.target).2.Distinct Route.load.parameters
  long : bodyLimit < r.body.length

namespace Query

section Parameters

variable {q : Query} {name : String}

theorem parameter_ne_bodyTooLong {α : Type} {read? : List Char → Option α} {default : α} :
    q.parameter name read? default ≠ .error .bodyTooLong := by
  rw [parameter]
  split
  · nofun
  · split <;> nofun

end Parameters

theorem go_eq_none_iff {keys seen : List String} :
    repeated?.go keys seen = none ↔ keys.Nodup ∧ ∀ key ∈ keys, key ∉ seen := by
  induction keys generalizing seen with
  | nil => simp [repeated?.go]
  | cons key rest ih =>
    rw [repeated?.go]
    split
    · rename_i member
      simp [member]
    · rename_i fresh
      rw [ih, List.nodup_cons, List.forall_mem_cons]
      constructor
      · rintro ⟨distinct, unseen⟩
        exact ⟨⟨fun member => unseen key member List.mem_cons_self, distinct⟩, fresh,
          fun other member seen => unseen other member (List.mem_cons_of_mem key seen)⟩
      · rintro ⟨⟨absent, distinct⟩, -, unseen⟩
        refine ⟨distinct, fun other member seen => ?_⟩
        rcases List.mem_cons.mp seen with rfl | seen
        · exact absent member
        · exact unseen other member seen

theorem find?_eq_some_iff {names : List String} {name : String} {key : List Char} :
    names.find? (·.toList = key) = some name ↔ name ∈ names ∧ key = name.toList := by
  constructor
  · intro found
    have same := List.find?_some found
    exact ⟨List.mem_of_find?_eq_some found, (of_decide_eq_true same).symm⟩
  · rintro ⟨member, rfl⟩
    cases found : names.find? (·.toList = name.toList) with
    | none => simpa using List.find?_eq_none.mp found name member
    | some other =>
      have same := List.find?_some found
      rw [String.toList_injective (of_decide_eq_true same)]

theorem repeated?_eq_none_iff {q : Query} {names : List String} :
    q.repeated? names = none ↔ q.Distinct names := by
  have count (name : String) : ((q.pairs.map (·.1)).filterMap fun key =>
      names.find? (·.toList = key)).count name =
        if name ∈ names then q.pairs.countP (·.1 = name.toList) else 0 := by
    rw [List.count_filterMap, List.countP_map]
    split
    · rename_i member
      refine List.countP_congr fun pair _ => ?_
      rw [Function.comp_apply, beq_iff_eq, find?_eq_some_iff, decide_eq_true_eq,
        and_iff_right member]
    · rename_i absent
      refine List.countP_eq_zero.mpr fun pair _ => ?_
      rw [Function.comp_apply, beq_iff_eq, find?_eq_some_iff]
      exact fun found => absent found.1
  rw [repeated?, go_eq_none_iff, and_iff_left (by simp), List.nodup_iff_count_le_one]
  refine forall_congr' fun name => ?_
  rw [count]
  split <;> simp [*]

end Query

section Ask

variable {settings : Settings} {q : Query} (body : List UInt8) {operation : Operation}

end Ask

section Overlong

variable {settings : Settings} {q : Query} {body : List UInt8}

theorem Operation.ofLoad_eq_bodyTooLong_iff :
    ofLoad settings q body = .error .bodyTooLong ↔ Request.bodyLimit < body.length := by
  have taken : Request.takeIn body = .error .bodyTooLong ↔ Request.bodyLimit < body.length := by
    simp [Request.takeIn]
  simp only [ofLoad, bind_eq_error_iff, taken, mapError_eq_error_iff, map_eq_error_iff,
    Query.parameter_ne_bodyTooLong, reduceCtorEq, and_false, exists_false, or_false]

theorem Operation.ofStep_ne_bodyTooLong : ofStep settings q ≠ .error .bodyTooLong := by
  rw [ofStep, ne_eq, bind_eq_error_iff, not_or]
  refine ⟨Query.parameter_ne_bodyTooLong, ?_⟩
  rintro ⟨n, -, refused⟩
  dsimp only at refused
  split at refused <;> cases refused

theorem Operation.ofReset_ne_bodyTooLong : ofReset settings q ≠ .error .bodyTooLong := by
  rw [ofReset, ne_eq, bind_eq_error_iff, not_or]
  refine ⟨Query.parameter_ne_bodyTooLong, ?_⟩
  rintro ⟨pc, -, refused⟩
  cases refused

theorem Route.action_eq_bodyTooLong_iff {route : Route} :
    route.action settings q body = .error .bodyTooLong ↔
      q.Distinct route.parameters ∧ route = .load ∧ Request.bodyLimit < body.length := by
  rw [← Query.repeated?_eq_none_iff]
  unfold action
  cases q.repeated? route.parameters with
  | some name => simp
  | none =>
    rw [and_iff_right rfl]
    cases route with
    | health | state => simp
    | load => simp [map_eq_error_iff, Operation.ofLoad_eq_bodyTooLong_iff]
    | step => simp [map_eq_error_iff, Operation.ofStep_ne_bodyTooLong]
    | reset => simp [map_eq_error_iff, Operation.ofReset_ne_bodyTooLong]

end Overlong

theorem Route.ofPath?_eq_some_iff {path : List Char} {route : Route} :
    ofPath? path = some route ↔ path = route.path.toList := by
  constructor
  · intro found
    have same := List.find?_some found
    exact (of_decide_eq_true same).symm
  · rintro rfl
    cases route <;> decide

theorem Request.action_eq (r : Request) (settings : Settings) : r.action settings =
    if r.method = .options then .ok .preflight
    else match Route.ofPath? (Query.ofTarget r.target).1 with
      | none => .error .notFound
      | some route =>
        if r.method ∈ route.methods then
          route.action settings (Query.ofTarget r.target).2 r.body
        else .error .methodNotAllowed := rfl

/-- What is not settled in front of the routes is settled by one of them. -/
theorem Request.action_eq_iff {r : Request} {settings : Settings} {outcome : Except Refusal Action}
    (preflight : outcome ≠ .ok .preflight) (notFound : outcome ≠ .error .notFound)
    (methodNotAllowed : outcome ≠ .error .methodNotAllowed) :
    r.action settings = outcome ↔ r.method ≠ .options ∧ ∃ route : Route,
      (Query.ofTarget r.target).1 = route.path.toList ∧ r.method ∈ route.methods ∧
        route.action settings (Query.ofTarget r.target).2 r.body = outcome := by
  rw [action_eq]
  constructor
  · intro read
    split at read
    · exact absurd read.symm preflight
    · rename_i plain
      split at read
      · exact absurd read.symm notFound
      · rename_i route found
        split at read
        · rename_i offered
          exact ⟨plain, route, Route.ofPath?_eq_some_iff.mp found, offered, read⟩
        · exact absurd read.symm methodNotAllowed
  · rintro ⟨plain, route, path, offered, read⟩
    rw [if_neg plain, Route.ofPath?_eq_some_iff.mpr path]
    exact (if_pos offered).trans read

/-- No request but a load is refused for its length. -/
theorem Request.action_eq_bodyTooLong_iff {r : Request} {settings : Settings} :
    r.action settings = .error .bodyTooLong ↔ r.Overlong := by
  refine Iff.trans (action_eq_iff nofun nofun nofun) ?_
  constructor
  · rintro ⟨-, route, path, offered, refused⟩
    obtain ⟨distinct, rfl, long⟩ := Route.action_eq_bodyTooLong_iff.mp refused
    exact ⟨List.mem_singleton.mp offered, path, distinct, long⟩
  · rintro ⟨posted, path, distinct, long⟩
    rw [posted]
    exact ⟨nofun, .load, path, List.mem_singleton.mpr rfl,
      Route.action_eq_bodyTooLong_iff.mpr ⟨distinct, rfl, long⟩⟩

/-- The methods of requests that only read. -/
def Request.ReadOnly (r : Request) : Prop :=
  r.method = .get ∨ r.method = .head ∨ r.method = .options

instance (r : Request) : Decidable r.ReadOnly := inferInstanceAs (Decidable (_ ∨ _))

end MipsPipeline
