import BlockMachine.Proofs.Machine.Values
import BlockMachine.Proofs.Program.Addressing
import BlockMachine.Proofs.Session.Stepping

namespace BlockMachine

def Puzzle.SolvedBy (q : Puzzle) (blocks : List Instruction) (limit : Nat) : Prop :=
  (Session.fresh q blocks limit).run.2.succeeded = true

/-- A solution puts out what is expected, item by item. -/
theorem Puzzle.SolvedBy.outbox_eq {q : Puzzle} {blocks : List Instruction} {limit : Nat}
    (h : q.SolvedBy blocks limit) :
    (Session.fresh q blocks limit).ready.run.2.state.outbox = q.expectedOutbox := by
  obtain ⟨hcorrect, -⟩ := Bool.and_eq_true_iff.mp h
  exact (eq_of_beq hcorrect).symm

/-- An item that the machine cannot come by is not put out by any program. -/
theorem Puzzle.not_solvedBy {q : Puzzle} {P : Int → Prop} (hP : KeptByArithmetic P)
    (hin : ∀ v ∈ q.initialInbox, P v) {v : Int} (hv : v ∈ q.expectedOutbox) (hnot : ¬ P v)
    (blocks : List Instruction) (limit : Nat) : ¬ q.SolvedBy blocks limit := by
  intro h
  have hstart : (Session.fresh q blocks limit).ready.state.AllValues P :=
    State.allValues_start hP hin
  have hout := Machine.outbox_of_run hP hstart
  rw [h.outbox_eq] at hout
  exact hnot (hout v hv)

/-- A program in order of position can be run as it stands to see that it is a solution. -/
theorem Puzzle.solvedBy_of_run {q : Puzzle} {blocks : List Instruction} {limit : Nat}
    (hblocks : blocks.Pairwise (·.position ≤ ·.position)) (hne : q.expectedOutbox ≠ [])
    (hout : (Machine.fresh { instructions := blocks } limit q.initialInbox).run.2.state.outbox =
      q.expectedOutbox) : q.SolvedBy blocks limit := by
  rw [← Program.ofList_eq_self hblocks] at hout
  have hsolved : (q.isSolvedBy q.expectedOutbox && !q.expectedOutbox.isEmpty) = true := by
    simp [isSolvedBy, hne]
  rw [← hout] at hsolved
  exact hsolved

namespace Catalog

def inOrder (ops : List Op) : List Instruction :=
  ops.zipIdx.map fun (op, position) => { position, op }

def copyAll : List Instruction :=
  [⟨0, .inbox, some "loop"⟩, ⟨1, .outbox, none⟩, ⟨2, .jump "loop", none⟩]

def addFive : List Instruction :=
  inOrder [.inbox, .copyTo 0, .inbox, .add 0, .copyTo 0, .inbox, .add 0, .copyTo 0,
    .inbox, .add 0, .copyTo 0, .inbox, .add 0, .outbox]

def subtractTwice : List Instruction :=
  inOrder [.inbox, .copyTo 0, .sub 0, .sub 0, .outbox]

theorem solvedBy_copyAll : helloWorld.SolvedBy copyAll Machine.defaultBudget :=
  Puzzle.solvedBy_of_run (by decide) (by decide) (by decide +kernel)

theorem solvedBy_addFive : sumAll.SolvedBy addFive Machine.defaultBudget :=
  Puzzle.solvedBy_of_run (by decide) (by decide) (by decide +kernel)

/-- An item less itself is 0, and less itself once more it is its own negative. -/
theorem solvedBy_subtractTwice : negate.SolvedBy subtractTwice Machine.defaultBudget :=
  Puzzle.solvedBy_of_run (by decide) (by decide) (by decide +kernel)

/-- From a single 5 the machine gets to multiples of 5, and 6 is none. -/
theorem not_solvedBy_addOne (blocks : List Instruction) (limit : Nat) :
    ¬ addOne.SolvedBy blocks limit := by
  have hin : ∀ v ∈ addOne.initialInbox, (5 : Int) ∣ v := by decide
  have hout : (6 : Int) ∈ addOne.expectedOutbox := by decide
  exact Puzzle.not_solvedBy (keptByArithmetic_dvd 5) hin hout (by decide) blocks limit

/-- All other puzzles have a solution within the usual budget. -/
theorem exists_solvedBy {q : Puzzle} (hq : q ∈ puzzles) (hne : q ≠ addOne) :
    ∃ blocks, q.SolvedBy blocks Machine.defaultBudget := by
  simp only [puzzles, List.mem_cons, List.not_mem_nil, or_false] at hq
  rcases hq with rfl | rfl | rfl | rfl
  · exact ⟨copyAll, solvedBy_copyAll⟩
  · exact absurd rfl hne
  · exact ⟨addFive, solvedBy_addFive⟩
  · exact ⟨subtractTwice, solvedBy_subtractTwice⟩

/-- The puzzles on offer can be solved within the default budget, except the one that asks for a
number to be increased by one. That one is solved by no program, within any budget. -/
theorem solvable_iff_ne_addOne {q : Puzzle} (hq : q ∈ puzzles) :
    ((∃ blocks, q.SolvedBy blocks Machine.defaultBudget) ↔ q ≠ addOne) ∧
      ((∃ blocks limit, q.SolvedBy blocks limit) ↔ q ≠ addOne) := by
  have hnever : (∃ blocks limit, q.SolvedBy blocks limit) → q ≠ addOne := by
    rintro ⟨blocks, limit, hsolved⟩ rfl
    exact not_solvedBy_addOne blocks limit hsolved
  refine ⟨⟨fun ⟨blocks, h⟩ => hnever ⟨blocks, _, h⟩, exists_solvedBy hq⟩, hnever, fun hne => ?_⟩
  obtain ⟨blocks, h⟩ := exists_solvedBy hq hne
  exact ⟨blocks, _, h⟩

theorem negate_is_solvable : negate ∈ puzzles ∧
    ((∃ blocks, negate.SolvedBy blocks Machine.defaultBudget) ↔ negate ≠ addOne) ∧
      ((∃ blocks limit, negate.SolvedBy blocks limit) ↔ negate ≠ addOne) := by
  have hmem : negate ∈ puzzles := by decide
  exact ⟨hmem, solvable_iff_ne_addOne hmem⟩

theorem not_every_puzzle_is_solvable :
    ¬ ∀ q ∈ puzzles, ∃ blocks, q.SolvedBy blocks Machine.defaultBudget := by
  intro h
  obtain ⟨blocks, hsolved⟩ := h addOne (by decide)
  exact not_solvedBy_addOne blocks _ hsolved

end Catalog

end BlockMachine
