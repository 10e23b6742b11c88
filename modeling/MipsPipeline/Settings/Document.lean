import MipsPipeline.Json.Reader
import MipsPipeline.Settings.Basic

/-
Settings as a JSON document of three sections. A section, and the document itself, is written
either as an object or as an array of its fields in order; what is left out keeps its default, and
an object may have members of other names. A field's own value must have exactly the right type,
a name of the document may not be given twice, and an array may not be too long.
-/
namespace MipsPipeline.Settings

/-- The value of each field that is present, in the order of the names. -/
def fields? (names : List String) : Json → Option (List (Option Json))
  | .array items =>
    if items.length ≤ names.length then some (names.zipIdx.map fun (_, i) => items[i]?) else none
  | .object members =>
    if members.all (·.1.isSome) ∧ ((members.filter known).map (·.1)).Nodup then
      some (names.map fun name => (members.find? (·.1 = some name)).map (·.2))
    else none
  | _ => none
where
  known (member : Option String × Json) : Bool := member.1.any (names.contains ·)

/-- Reads a present value; an absent one is the default. -/
def present? (read : Json → Option α) (default : α) : Option Json → Option α
  | some value => read value
  | none => some default

def withGeneral? (s : Settings) (section? : Option Json) : Option Settings := do
  match ← fields? ["start_pc", "trace_stages"] (section?.getD (.object [])) with
  | [pc, trace] =>
    let pc ← present? (Json.nat? Word.limit) s.startPc.toNat pc
    let trace ← present? Json.bool? s.traceStages trace
    some { s with startPc := BitVec.ofNat 32 pc, traceStages := trace }
  | _ => none

def withMemory? (s : Settings) (section? : Option Json) : Option Settings := do
  match ← fields? ["instruction_words", "data_words"] (section?.getD (.object [])) with
  | [code, data] =>
    let code ← present? (Json.nat? Text.counterLimit) s.codeWords code
    let data ← present? (Json.nat? Text.counterLimit) s.dataWords data
    some { s with codeWords := code, dataWords := data }
  | _ => none

def withPipeline? (s : Settings) (section? : Option Json) : Option Settings := do
  match ← fields? ["history_limit", "max_step_cycles"] (section?.getD (.object [])) with
  | [limit, steps] =>
    let limit ← present? (Json.nat? Text.counterLimit) s.historyLimit limit
    let steps ← present? (Json.nat? Text.counterLimit) s.maxStepCycles steps
    some { s with historyLimit := limit, maxStepCycles := steps }
  | _ => none

def ofJson? (document : Json) : Option Settings := do
  match ← fields? ["general", "memory", "pipeline"] document with
  | [general, memory, pipeline] =>
    let s ← withGeneral? {} general
    let s ← withMemory? s memory
    withPipeline? s pipeline
  | _ => none

/-- Reads a document and checks what it says. -/
def parse (text : List Char) : Except SettingsError Settings :=
  match (Json.read? text).bind ofJson? with
  | none => .error .malformed
  | some s => match s.fault? with
    | some fault => .error fault
    | none => .ok s

def toJson (s : Settings) : Json :=
  .record [
    ("general", .record [
      ("start_pc", .nat s.startPc.toNat), ("trace_stages", .bool s.traceStages)]),
    ("memory", .record [
      ("instruction_words", .nat s.codeWords), ("data_words", .nat s.dataWords)]),
    ("pipeline", .record [
      ("history_limit", .nat s.historyLimit), ("max_step_cycles", .nat s.maxStepCycles)])]

theorem valid_of_parse {text : List Char} {s : Settings} (h : parse text = .ok s) : s.Valid := by
  unfold parse at h
  split at h
  · contradiction
  · split at h
    · contradiction
    · cases h
      rwa [← fault?_eq_none_iff]

end MipsPipeline.Settings
