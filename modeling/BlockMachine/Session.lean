import BlockMachine.Machine.Run
import BlockMachine.Puzzle.Catalog

/-! An attempt at a puzzle: the blocks as they are placed at the moment, and the machine that
executes them. The blocks are installed when the machine is next stepped or run. -/
namespace BlockMachine

inductive Verdict where
  | correct
  | running
  | gaveUp (steps : Nat)
  | stoppedOnError
  | wrong (expected actual : List Int)
  deriving DecidableEq, Repr

def Verdict.message : Verdict → String
  | correct => "Correct output!"
  | running => "Still running"
  | gaveUp n => s!"Gave up after {n} steps"
  | stoppedOnError => "Stopped on an error"
  | wrong expected actual =>
    let items := fun values : List Int => String.intercalate ", " (values.map toString)
    s!"Expected [{items expected}] but got [{items actual}]"

structure Session where
  puzzle : Puzzle
  blocks : List Instruction := []
  program : Program := .ofList blocks
  program_eq : program = .ofList blocks := by rfl
  machine : Machine := .ofPuzzle puzzle
  deriving DecidableEq

namespace Session

def ofPuzzle (q : Puzzle) : Session := { puzzle := q }

def ofId? (id : String) : Option Session := (Catalog.find? id).map ofPuzzle

def withMaxSteps (s : Session) (n : Nat) : Session :=
  { s with machine := s.machine.withMaxSteps n }

def setBlocks (s : Session) (blocks : List Instruction) : Session :=
  { puzzle := s.puzzle, blocks, machine := s.machine }

def ready (s : Session) : Machine := s.machine.withProgram s.program

def act (s : Session) (action : Machine → Except Overflow Bool × Machine) :
    Except Overflow Bool × Session :=
  let (answer, machine) := action s.ready
  (answer, { s with machine })

def step (s : Session) : Except Overflow Bool × Session := s.act Machine.step

def run (s : Session) : Except Overflow Bool × Session := s.act Machine.run

def reset (s : Session) : Session := { s with machine := s.machine.reset s.puzzle }

def state (s : Session) : State := s.machine.state

def halted (s : Session) : Bool := s.machine.halted

def current? (s : Session) : Option Instruction := s.machine.current?

def isCorrect (s : Session) : Bool := s.puzzle.isSolvedBy s.state.outbox

def cells (s : Session) : List Int := s.state.memory.cells s.puzzle.memorySize

def succeeded (s : Session) : Bool := s.isCorrect && !s.state.outbox.isEmpty

def verdict (s : Session) : Verdict :=
  if s.succeeded then .correct
  else match s.state.halt with
    | none => .running
    | some .stepBudget => .gaveUp s.state.stepCount
    | some .fault => .stoppedOnError
    | some .inboxEmpty | some .endOfProgram => .wrong s.puzzle.expectedOutbox s.state.outbox

structure Walk where
  seen : List Session
  answer : Except Overflow Bool
  last : Session

def walkFor : Nat → Session → List Session → Walk
  | 0, s, seen => ⟨seen.reverse, .ok true, s⟩
  | n + 1, s, seen =>
    match s.step with
    | (.ok true, next) => walkFor n next (next :: seen)
    | (answer, last) => ⟨seen.reverse, answer, last⟩

/-- Steps the session until a step executes nothing. The budget allows for no more steps than
are counted here, and the last of them executes nothing. -/
def walk (s : Session) : Walk :=
  walkFor (s.machine.maxSteps - s.state.stepCount + 1) s [s]

end Session

end BlockMachine
