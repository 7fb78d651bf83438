import BlockMachine.Memory
import BlockMachine.Program

namespace BlockMachine

inductive Halt where
  | inboxEmpty | endOfProgram | stepBudget | fault
  deriving DecidableEq, Repr

structure Overflow where
  opcode : Opcode
  pc : Nat
  lhs : Int
  rhs : Int
  deriving DecidableEq, Repr

def Overflow.message (e : Overflow) : String :=
  s!"`{e.opcode.name}` at instruction {e.pc} overflowed: {e.lhs} and {e.rhs}"

/-- The numbers that the machine can hold: those from -2 ^ 63 on that are below 2 ^ 63. -/
def InRange (v : Int) : Prop := -9223372036854775808 ≤ v ∧ v < 9223372036854775808

instance (v : Int) : Decidable (InRange v) := inferInstanceAs (Decidable (_ ∧ _))

structure State where
  pc : Nat := 0
  stepCount : Nat := 0
  halt : Option Halt := none
  accumulator : Option Int := none
  inbox : List Int := []
  /-- The items put into the outbox, latest first. -/
  sent : List Int := []
  memory : Memory := .empty
  deriving DecidableEq

inductive Refusal where
  | inboxEmpty
  | overflow (e : Overflow)
  deriving DecidableEq

namespace State

def start (inbox : List Int) : State := { inbox }

def halted (s : State) : Bool := s.halt.isSome

def outbox (s : State) : List Int := s.sent.reverse

def arrive (s : State) (address : Nat) : State :=
  { s with pc := address, stepCount := s.stepCount + 1 }

def advance (s : State) : State := s.arrive (s.pc + 1)

def jump (s : State) (p : Program) (target : Label) : State :=
  s.arrive ((p.resolve target).getD (s.pc + 1))

def send (s : State) (v : Int) : State := { s with accumulator := none, sent := v :: s.sent }

/-- What is put out last stands at the end of the outbox. -/
theorem outbox_send (s : State) (v : Int) : (s.send v).outbox = s.outbox ++ [v] :=
  List.reverse_cons

def calculate (s : State) (o : Opcode) (lhs rhs value : Int) : Except Refusal State :=
  if InRange value then .ok { s with accumulator := some value }.advance
  else .error (.overflow ⟨o, s.pc, lhs, rhs⟩)

/-- Carries out one operation. Without an accumulator, writing and calculating do nothing, and
a condition on it does not hold. -/
def perform (p : Program) (s : State) : Op → Except Refusal State
  | .inbox =>
    match s.inbox with
    | [] => .error .inboxEmpty
    | v :: rest => .ok { s with accumulator := some v, inbox := rest }.advance
  | .outbox =>
    match s.accumulator with
    | none => .ok s.advance
    | some v => .ok (s.send v).advance
  | .copyTo c =>
    match s.accumulator with
    | none => .ok s.advance
    | some v => .ok { s with memory := s.memory.set c v }.advance
  | .copyFrom c => .ok { s with accumulator := some (s.memory.get c) }.advance
  | .add c =>
    match s.accumulator with
    | none => .ok s.advance
    | some v => s.calculate .add v (s.memory.get c) (v + s.memory.get c)
  | .sub c =>
    match s.accumulator with
    | none => .ok s.advance
    | some v => s.calculate .sub v (s.memory.get c) (v - s.memory.get c)
  | .jump l => .ok (s.jump p l)
  | .jumpIfZero l => .ok (if s.accumulator = some 0 then s.jump p l else s.advance)
  | .jumpIfNegative l => .ok (if s.accumulator.any (· < 0) then s.jump p l else s.advance)
  | .unconfigured _ => .ok s.advance

end State

end BlockMachine
