import BlockMachine.Proofs.Machine.Calls

namespace BlockMachine

/-- What is installed is in order, so that it is installed again as it stands. -/
theorem Program.ofList_idempotent (blocks : List Instruction) :
    ofList (ofList blocks).instructions = ofList blocks := by
  apply ext_instructions
  exact ofList_instructions (ofList_ascending blocks)

def Call.puzzle? : Call → Option Puzzle
  | reset q => some q
  | step | run | install _ | limit _ | restart => none

namespace Machine

structure View where
  state : State
  blocks : List Instruction
  current? : Option Instruction
  deriving DecidableEq

def view (m : Machine) : View := ⟨m.state, m.program.instructions, m.current?⟩

def shows : List Call → Machine → List (Option (Except Overflow Bool) × View)
  | [], _ => []
  | c :: calls, m => ((m.call c).1, (m.call c).2.view) :: shows calls (m.call c).2

/-- Two machines that look the same, and go on to do so whatever is asked of both of them. -/
structure Alike (m m' : Machine) : Prop where
  view : m'.view = m.view
  shows : ∀ calls, m'.shows calls = m.shows calls

def puzzleAfter (q : Puzzle) (calls : List Call) : Puzzle :=
  (calls.filterMap Call.puzzle?).getLast?.getD q

def anew (m : Machine) (q : Puzzle) : Machine :=
  ((ofPuzzle q).withMaxSteps m.maxSteps).install m.program.instructions

variable {m : Machine} {q : Puzzle}

theorem puzzleAfter_cons (q : Puzzle) (c : Call) (calls : List Call) :
    puzzleAfter q (c :: calls) = puzzleAfter (c.puzzle?.getD q) calls := by
  rw [puzzleAfter, puzzleAfter]
  cases hc : c.puzzle? with
  | none => rw [List.filterMap_cons_none hc, Option.getD_none]
  | some r =>
    rw [List.filterMap_cons_some hc, List.getLast?_cons, Option.getD_some, Option.getD_some]

theorem initialInbox_call (h : m.initialInbox = q.initialInbox) (c : Call) :
    (m.call c).2.initialInbox = (c.puzzle?.getD q).initialInbox := by
  cases c with
  | step => exact (congrArg initialInbox m.step_eq_with_state).trans h
  | run => exact (congrArg initialInbox m.run_eq_with_state).trans h
  | install | limit | restart => exact h
  | reset => rfl

/-- The stored inbox is always that of the last reset. -/
theorem initialInbox_afterCalls (h : m.initialInbox = q.initialInbox) (calls : List Call) :
    (m.afterCalls calls).initialInbox = (puzzleAfter q calls).initialInbox := by
  induction calls generalizing m q with
  | nil => exact h
  | cons c calls ih =>
    rw [puzzleAfter_cons]
    exact ih (initialInbox_call h c)

theorem reinstalled_call (h : .ofList m.program.instructions = m.program) (c : Call) :
    .ofList (m.call c).2.program.instructions = (m.call c).2.program := by
  cases hc : c.keepsProgram with
  | true =>
    rw [program_call m hc]
    exact h
  | false =>
    cases c with
    | install blocks => exact Program.ofList_idempotent blocks
    | step | run | limit | restart | reset => cases hc

/-- Whatever the calls were, the program is what its own blocks are installed as, with the same
addresses and the same labels. -/
theorem reinstalled_afterCalls (h : .ofList m.program.instructions = m.program)
    (calls : List Call) :
    .ofList (m.afterCalls calls).program.instructions = (m.afterCalls calls).program := by
  apply afterCalls_keeps (P := fun t => .ofList t.program.instructions = t.program) _ h
  intro c _ t ht
  exact reinstalled_call ht c

theorem restart_eq_anew (hprogram : .ofList m.program.instructions = m.program)
    (hinbox : m.initialInbox = q.initialInbox) : m.restart = m.anew q := by
  calc m.restart
    _ = ((ofPuzzle q).withMaxSteps m.maxSteps).withProgram m.program := by
      obtain ⟨n, xs, p, s⟩ := m
      obtain rfl : xs = q.initialInbox := hinbox
      rfl
    _ = m.anew q := by rw [anew, install, hprogram]

/-- A reset leaves no trace of what was done before, and neither does a restart: the machine answers
and looks from then on as a new machine does that has the same budget and the same blocks. A restart
is for the puzzle of the last reset, or else for the first one. -/
theorem fresh_start_leaves_no_trace (q : Puzzle) (past : List Call) :
    let m := (ofPuzzle q).afterCalls past
    (∀ r, Alike (m.anew r) (m.reset r)) ∧ Alike (m.anew (puzzleAfter q past)) m.restart := by
  intro m
  have hempty : .ofList (ofPuzzle q).program.instructions = (ofPuzzle q).program :=
    Program.ext_instructions (Program.ofList_instructions List.Pairwise.nil)
  have hprogram : .ofList m.program.instructions = m.program := reinstalled_afterCalls hempty past
  have hinbox : m.initialInbox = (puzzleAfter q past).initialInbox :=
    initialInbox_afterCalls rfl past
  constructor
  · intro r
    have hreset : m.reset r = m.anew r :=
      restart_eq_anew (m := { m with initialInbox := r.initialInbox }) hprogram rfl
    rw [hreset]
    exact ⟨rfl, fun _ => rfl⟩
  · rw [restart_eq_anew hprogram hinbox]
    exact ⟨rfl, fun _ => rfl⟩

end Machine

end BlockMachine
