import MipsPipeline.Json.Value
import MipsPipeline.Simulator.Basic
import MipsPipeline.Statistics.Report

/-
The complete state as shown to clients, and its JSON form. A latch without a live instruction is
shown with zeros and a null instruction.
-/
namespace MipsPipeline

structure StateView where
  cycle : Nat
  pc : Word
  registers : List Word
  latches : Latches
  /-- All words with their addresses, in order. -/
  data : List (Word × Word)
  /-- From the oldest retained cycle to the newest. -/
  history : List Snapshot
  /-- The reports of the newest retained cycle. -/
  hazards : List Hazard
  statistics : Statistics
  deriving DecidableEq, Repr

def Simulator.view (s : Simulator) : StateView where
  cycle := s.cycle
  pc := s.machine.pc
  registers := s.machine.registers.toList
  latches := s.latches
  data := s.machine.data.toList
  history := s.history.toList
  hazards := (s.history.newest?.map (·.hazards)).getD []
  statistics := s.statistics

def Word.signedJson (w : Word) : Json := .int w.toInt
def Word.unsignedJson (w : Word) : Json := .nat w.toNat

def Instruction.toJson (i : Instruction) : Json :=
  let fields := match i.format with
    | .register => [
        ("rs", .nat i.rs), ("rt", .nat i.rt), ("rd", .nat i.rd),
        ("shift", i.shamt.unsignedJson), ("func", .nat i.funct)]
    | .immediate => [("rs", .nat i.rs), ("rt", .nat i.rt), ("immediate", i.imm.signedJson)]
    | .jump => [("address", .nat i.target.toNat)]
  .record ([
    ("hex", .text (Text.upperHex 8 i.raw.toNat)),
    ("opcode", .nat i.opcode),
    ("assembly", .text i.assembly),
    ("format", .text i.format.letter)] ++ fields)

/-- The members common to all latches: address and instruction. -/
def latchHead (pc : Option Word) (inst : Option Instruction) : List (String × Json) :=
  [("pc", (pc.getD 0).unsignedJson), ("instruction", (inst.map (·.toJson)).getD .null)]

def Fetched.members (f : Option Fetched) : List (String × Json) :=
  latchHead (f.map (·.pc)) (f.map (·.inst))

def Decoded.members (d : Option Decoded) : List (String × Json) :=
  let index (field : Decoded → Nat) : Json := .nat ((d.map field).getD 0)
  let word (field : Decoded → Word) : Json := ((d.map field).getD 0).signedJson
  let flag (field : Control → Bool) : Json := .bool (d.any (field ·.control))
  latchHead (d.map (·.pc)) (d.map (·.inst)) ++ [
    ("rs", index (·.rs)),
    ("rt", index (·.rt)),
    ("rd", index (·.rd)),
    ("readData1", word (·.value1)),
    ("readData2", word (·.value2)),
    ("signExtImm", word (·.imm)),
    ("regWrite", flag (·.regWrite)),
    ("memRead", flag (·.memRead)),
    ("memWrite", flag (·.memWrite)),
    ("memToReg", flag (·.memToReg)),
    ("branch", flag (·.branch))]

def Executed.members (e : Option Executed) : List (String × Json) :=
  let index (field : Executed → Nat) : Json := .nat ((e.map field).getD 0)
  let word (field : Executed → Word) : Json := ((e.map field).getD 0).signedJson
  let flag (field : Control → Bool) : Json := .bool (e.any (field ·.control))
  latchHead (e.map (·.pc)) (e.map (·.inst)) ++ [
    ("aluResult", word (·.result)),
    ("writeData", word (·.storeData)),
    ("destReg", index (·.dest)),
    ("zero", .bool (e.any (·.zero))),
    ("regWrite", flag (·.regWrite)),
    ("memRead", flag (·.memRead)),
    ("memWrite", flag (·.memWrite)),
    ("memToReg", flag (·.memToReg)),
    ("branch", flag (·.branch)),
    ("branchTaken", .bool (e.any (·.taken))),
    ("forwardA", index (·.sourceA.code)),
    ("forwardB", index (·.sourceB.code))]

def Accessed.members (a : Option Accessed) : List (String × Json) :=
  let index (field : Accessed → Nat) : Json := .nat ((a.map field).getD 0)
  let word (field : Accessed → Word) : Json := ((a.map field).getD 0).signedJson
  let flag (field : Control → Bool) : Json := .bool (a.any (field ·.control))
  latchHead (a.map (·.pc)) (a.map (·.inst)) ++ [
    ("aluResult", word (·.result)),
    ("memData", word (·.loaded)),
    ("writeData", word (·.writeData)),
    ("destReg", index (·.dest)),
    ("regWrite", flag (·.regWrite)),
    ("memToReg", flag (·.memToReg))]

def Latches.toJson (l : Latches) : Json :=
  .record [
    ("IF_ID", .record (Fetched.members l.ifId.entry?)),
    ("ID_EX", .record (Decoded.members l.idEx.entry?)),
    ("EX_MEM", .record (Executed.members l.exMem.entry?)),
    ("MEM_WB", .record (Accessed.members l.memWb.entry?))]

def Hazard.toJson (h : Hazard) : Json :=
  .record [("kind", .text h.kind.label), ("message", .text h.message)]

def Snapshot.toJson (s : Snapshot) : Json :=
  .record [
    ("cycle", .nat s.cycle),
    ("IF", stage s.fetch.state (Fetched.members s.fetch.entry?)),
    ("ID", stage s.decode.state (Decoded.members s.decode.entry?)),
    ("EX", stage s.execute.state (Executed.members s.execute.entry?)),
    ("MEM", stage s.memory.state (Accessed.members s.memory.entry?)),
    ("WB", stage s.writeback.state (Accessed.members s.writeback.entry?)),
    ("hazards", .array (s.hazards.map (·.toJson)))]
where
  stage (state : StageState) (members : List (String × Json)) : Json :=
    .record (("state", .text state.label) :: members)

def StateView.toJson (v : StateView) : Json :=
  .record [
    ("cycle", .nat v.cycle),
    ("pc", v.pc.unsignedJson),
    ("registers", .array (v.registers.map (·.signedJson))),
    ("pipeline", v.latches.toJson),
    ("dataMemory",
      .record (v.data.map fun (address, value) => (toString address.toNat, value.signedJson))),
    ("pipelineHistory", .array (v.history.map (·.toJson))),
    ("hazards", .array (v.hazards.map (·.toJson))),
    ("stats", v.statistics.toJson)]

def LoadReport.toJson (r : LoadReport) : Json :=
  .record [
    ("loaded", .nat r.loaded),
    ("start", r.start.unsignedJson),
    ("end", r.last.unsignedJson),
    ("warnings", .array (r.warnings.map .text))]

end MipsPipeline
