import Mathlib.Logic.ExistsUnique
import MipsPipeline.Proofs.Reachable
import MipsPipeline.Proofs.Tally

/-
Where fetch goes next. Execute, a load-use stall and a jump in decode can all ask for something
else than the next address. A cycle obeys exactly one of them, the one of the oldest instruction,
and then does that in full. A stall does not look at execute at all; that it never overrides a
taken branch rests on what control signals decode can have put into ID/EX.
-/
namespace MipsPipeline

section

variable {m : Machine} {l : Latches} {target : Word}

theorem Cycle.start_of_redirect (go : ¬ LoadUse l.idEx l.ifId)
    (redirect : l.execute.redirect? = some target) :
    start m l =
      { writeback := l.memWb
        memory := l.exMem.map (·.access m.data)
        execute := l.execute
        stall := false
        decode := l.decode (l.memWb.retire m.registers) false (some target)
        fetch := m.intake false (some target) } := by
  rw [Latches.execute] at redirect
  simp [start, go, redirect, Latches.execute]

/-- Behind a redirect nothing is left of what decode held but that it held something. -/
theorem Cycle.latches_of_redirect (go : ¬ LoadUse l.idEx l.ifId)
    (redirect : l.execute.redirect? = some target) (occupied : ¬ l.ifId.IsEmpty) :
    (start m l).latches l =
      { ifId := (m.intake false (some target)).output
        idEx := .bubble
        exMem := l.execute.map (·.entry)
        memWb := l.exMem.map (·.access m.data) } := by
  rw [start_of_redirect go redirect]
  simp only [latches, Latches.decode]
  cases held : l.ifId with
  | empty =>
    rw [held] at occupied
    exact absurd trivial occupied
  | bubble => rfl
  | valid f => rfl

theorem Machine.clock_of_redirect (go : ¬ LoadUse l.idEx l.ifId)
    (redirect : l.execute.redirect? = some target) :
    m.clock l (Cycle.start m l) =
      { registers := l.memWb.retire m.registers
        pc := target
        code := m.code
        data := l.exMem.stored m.data } := by
  rw [clock, (Cycle.front_of_redirect go redirect).2.2]

end

namespace Simulator

theorem kept_controlled : Kept fun s => s.latches.Controlled where
  start _ := Latches.controlled_empty
  step s _ := Cycle.controlled_latches s.machine s.latches
  edit _ _ controlled := controlled
  restart _ _ _ := Latches.controlled_empty
  reset _ _ _ := Latches.controlled_empty

/-- How a cycle moves the program counter. -/
inductive Move where
  /-- To where execute goes. -/
  | redirect (target : Word)
  | stall
  /-- To where decode goes. -/
  | jump (target : Word)
  | onward
  deriving DecidableEq, Repr

variable (s : Simulator)

def Branches : Prop := ∃ target, s.latches.Branches target

def Stalls : Prop := LoadUse s.latches.idEx s.latches.ifId

def Jumps : Prop := ∃ target, s.latches.Jumps target

/-- What asks for a move; the older instruction is heard first. -/
def AsksFor : Move → Prop
  | .redirect target => s.latches.Branches target
  | .stall => ¬ s.Branches ∧ s.Stalls
  | .jump target => ¬ s.Branches ∧ ¬ s.Stalls ∧ s.latches.Jumps target
  | .onward => ¬ s.Branches ∧ ¬ s.Stalls ∧ ¬ s.Jumps

/-- The simulator with a bubble in place of what is in decode. -/
def withoutDecode : Simulator := { s with latches := { s.latches with ifId := .bubble } }

/-- An instruction in decode leaves no trace in the machine or the latches. -/
def IgnoresDecode : Prop :=
  s.step.statistics.jumps = s.statistics.jumps ∧
    ∀ f, s.latches.ifId = .valid f →
      s.step.machine = s.withoutDecode.step.machine ∧
      s.step.latches = s.withoutDecode.step.latches

/-- What the next cycle has to do to make a move. -/
def Makes : Move → Prop
  | .redirect target =>
    ¬ s.Stalls ∧ s.step.machine.pc = target ∧ s.step.latches.idEx.entry? = none ∧
      s.step.latches.ifId.entry? = none ∧ s.IgnoresDecode
  | .stall =>
    s.step.machine.pc = s.machine.pc ∧ s.step.latches.ifId = s.latches.ifId ∧
      s.step.latches.idEx = .bubble
  | .jump target => s.step.machine.pc = target ∧ s.step.latches.ifId.entry? = none
  | .onward => s.step.machine.pc = s.machine.pc.next

theorem existsUnique_asksFor : ∃! move, s.AsksFor move := by
  by_cases branches : s.Branches
  · obtain ⟨target, taken⟩ := branches
    refine ⟨.redirect target, taken, ?_⟩
    intro move asked
    cases move with
    | redirect other => rw [Latches.Branches.unique asked taken]
    | stall => exact absurd ⟨target, taken⟩ asked.1
    | jump other => exact absurd ⟨target, taken⟩ asked.1
    | onward => exact absurd ⟨target, taken⟩ asked.1
  by_cases stalls : s.Stalls
  · refine ⟨.stall, ⟨branches, stalls⟩, ?_⟩
    intro move asked
    cases move with
    | redirect other => exact absurd ⟨other, asked⟩ branches
    | stall => rfl
    | jump other => exact absurd stalls asked.2.1
    | onward => exact absurd stalls asked.2.1
  by_cases jumps : s.Jumps
  · obtain ⟨target, jump⟩ := jumps
    refine ⟨.jump target, ⟨branches, stalls, jump⟩, ?_⟩
    intro move asked
    cases move with
    | redirect other => exact absurd ⟨other, asked⟩ branches
    | stall => exact absurd asked.2 stalls
    | jump other => rw [Latches.Jumps.unique asked.2.2 jump]
    | onward => exact absurd ⟨target, jump⟩ asked.2.2
  · refine ⟨.onward, ⟨branches, stalls, jumps⟩, ?_⟩
    intro move asked
    cases move with
    | redirect other => exact absurd ⟨other, asked⟩ branches
    | stall => exact absurd asked.2 stalls
    | jump other => exact absurd ⟨other, asked.2.2⟩ jumps
    | onward => rfl

variable {s}

theorem ignoresDecode_of_redirect {target : Word} (go : ¬ s.Stalls)
    (redirect : s.latches.execute.redirect? = some target) : s.IgnoresDecode := by
  constructor
  · rw [step, Cycle.start_of_redirect go redirect, Statistics.count_eq_add]
    unfold Latches.decode
    cases s.latches.ifId <;> rfl
  · intro f held
    have go' : ¬ s.withoutDecode.Stalls := Follows.no_stall_of_nothing rfl
    have occupied : ¬ s.latches.ifId.IsEmpty := by
      rw [held]
      exact id
    constructor
    · exact (Machine.clock_of_redirect go redirect).trans
        (Machine.clock_of_redirect go' redirect).symm
    · exact (Cycle.latches_of_redirect go redirect occupied).trans
        (Cycle.latches_of_redirect go' redirect id).symm

theorem straight_of_not_branches (controlled : s.latches.Controlled) (straight : ¬ s.Branches) :
    s.latches.execute.redirect? = none := by
  rw [Option.eq_none_iff_forall_ne_some]
  intro target redirect
  exact straight ⟨target, (Latches.redirect?_eq_some_iff controlled).mp redirect⟩

/-- The cycle makes the move that is asked for. -/
theorem makes_of_asksFor (controlled : s.latches.Controlled) {move : Move}
    (asked : s.AsksFor move) : s.Makes move := by
  cases move with
  | redirect target =>
    have go : ¬ s.Stalls := Latches.Branches.not_loadUse asked controlled
    have redirect := (Latches.redirect?_eq_some_iff controlled).mpr asked
    obtain ⟨ifId, idEx, pc⟩ := Cycle.front_of_redirect (m := s.machine) go redirect
    exact ⟨go, pc, idEx, ifId, ignoresDecode_of_redirect go redirect⟩
  | stall =>
    obtain ⟨ifId, idEx, pc⟩ := Cycle.front_of_stall (m := s.machine) asked.2
    exact ⟨pc, ifId, idEx⟩
  | jump target =>
    obtain ⟨unbranched, go, jumps⟩ := asked
    have straight := straight_of_not_branches controlled unbranched
    obtain ⟨f, inside, jump⟩ := (Latches.jump_eq_some_iff
      (s.latches.memWb.retire s.machine.registers)).mp jumps
    obtain ⟨ifId, pc⟩ := Cycle.front_of_jump go straight (Slot.eq_valid inside) jump
    exact ⟨pc, ifId⟩
  | onward =>
    obtain ⟨unbranched, go, noJump⟩ := asked
    have straight := straight_of_not_branches controlled unbranched
    refine (Cycle.front_of_fetch go straight ?_).2
    intro f inside
    rw [Option.eq_none_iff_forall_ne_some]
    intro target jump
    exact noJump ⟨target, (Latches.jump_eq_some_iff _).mpr ⟨f, inside, jump⟩⟩

/-- Every cycle is asked for exactly one move and makes it. -/
theorem one_move {s : Simulator} (reachable : s.Reachable fun _ => True) :
    (∃! move, s.AsksFor move) ∧ ∀ move, s.AsksFor move → s.Makes move := by
  refine ⟨s.existsUnique_asksFor, ?_⟩
  intro move asked
  exact makes_of_asksFor (kept_controlled.of_reachable reachable) asked

/-- `beq $zero, $zero, 3` in execute, with a jump to address 0 behind it in decode. -/
def branchBeforeJump : Simulator :=
  (ofSettings { codeWords := 8, dataWords := 4 }).performAll
    [.loadWords [0x10000003, 0x08000000] 0, .step, .step]

theorem one_move_branchBeforeJump :
    (branchBeforeJump.Reachable fun _ => True) ∧ branchBeforeJump.latches.Jumps 0 ∧
      branchBeforeJump.Makes (.redirect 16) := by
  have reachable : branchBeforeJump.Reachable fun _ => True := ⟨_, _, fun _ _ => trivial, rfl⟩
  have taken : branchBeforeJump.AsksFor (.redirect 16) :=
    show branchBeforeJump.latches.Branches 16 by decide
  exact ⟨reachable, by decide, (one_move reachable).2 _ taken⟩

end Simulator

end MipsPipeline
