import BlockMachine.Machine.State
import BlockMachine.Puzzle

/-! The machine: a program, a state and a budget of steps. It is stepped, or run until it halts
or the budget is spent. -/
namespace BlockMachine

def Machine.defaultBudget : Nat := 10000

structure Machine where
  /-- No further instruction is executed once so many have been. -/
  maxSteps : Nat := Machine.defaultBudget
  initialInbox : List Int := []
  program : Program := .empty
  state : State := .start initialInbox
  deriving DecidableEq

namespace Machine

def ofPuzzle (p : Puzzle) : Machine := { initialInbox := p.initialInbox }

def withMaxSteps (m : Machine) (n : Nat) : Machine := { m with maxSteps := n }

def withProgram (m : Machine) (p : Program) : Machine := { m with program := p }

def install (m : Machine) (blocks : List Instruction) : Machine :=
  m.withProgram (.ofList blocks)

def restart (m : Machine) : Machine := { m with state := .start m.initialInbox }

def reset (m : Machine) (p : Puzzle) : Machine :=
  { m with initialInbox := p.initialInbox }.restart

def halted (m : Machine) : Bool := m.state.halted

def haltWith (m : Machine) (h : Halt) : Machine := { m with state.halt := some h }

def current? (m : Machine) : Option Instruction := m.program.get? m.state.pc

def step (m : Machine) : Except Overflow Bool × Machine :=
  if m.halted then (.ok false, m)
  else if m.maxSteps ≤ m.state.stepCount then (.ok false, m.haltWith .stepBudget)
  else match m.current? with
    | none => (.ok false, m.haltWith .endOfProgram)
    | some i =>
      match m.state.perform m.program i.op with
      | .ok s => (.ok true, { m with state := s })
      | .error .inboxEmpty => (.ok false, m.haltWith .inboxEmpty)
      | .error (.overflow e) => (.error e, m.haltWith .fault)

theorem step_of_halted {m : Machine} (h : m.halted = true) : m.step = (.ok false, m) := by
  rw [step, if_pos h]

/-- A step changes the state and nothing else. -/
theorem step_eq_with_state (m : Machine) : m.step.2 = { m with state := m.step.2.state } := by
  unfold step haltWith
  split
  · rfl
  · split
    · rfl
    · split
      · rfl
      · split <;> rfl

def runFor : Nat → Machine → Except Overflow Bool × Machine
  | 0, m => (.ok !m.halted, m)
  | n + 1, m =>
    match m.step with
    | (.ok true, next) => runFor n next
    | stopped => stopped

theorem runFor_of_halted {m : Machine} (h : m.halted = true) (n : Nat) :
    runFor n m = (.ok false, m) := by
  cases n with
  | zero => rw [runFor, h]; rfl
  | succ n => rw [runFor, step_of_halted h]

theorem runFor_succ_of_step {m next : Machine} (h : m.step = (.ok true, next)) (n : Nat) :
    runFor (n + 1) m = runFor n next := by
  rw [runFor, h]

/-- The first step that executes nothing ends the run, and its answer is that of the run. -/
theorem runFor_succ_of_stop {m next : Machine} {a : Except Overflow Bool}
    (h : m.step = (a, next)) (ha : a ≠ .ok true) (n : Nat) : runFor (n + 1) m = (a, next) := by
  rw [runFor, h]
  rcases a with e | _ | _
  · rfl
  · rfl
  · exact absurd rfl ha

/-- Runs until the machine halts or the budget is spent; in the second case it is not halted. -/
def run (m : Machine) : Except Overflow Bool × Machine :=
  runFor (m.maxSteps - m.state.stepCount) m

end Machine

end BlockMachine
