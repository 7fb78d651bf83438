import BlockMachine.Proofs.Machine.Steps
import BlockMachine.Session

namespace BlockMachine.Session

def fresh (q : Puzzle) (blocks : List Instruction) (limit : Nat) : Session :=
  ((ofPuzzle q).withMaxSteps limit).setBlocks blocks

def after : Nat → Session → Session
  | 0, s => s
  | n + 1, s => after n s.step.2

inductive Stepped : Session → List Session → Except Overflow Bool → Session → Prop
  | last {s a t} : s.step = (a, t) → a ≠ .ok true → Stepped s [s] a t
  | next {s u seen a t} : s.step = (.ok true, u) → Stepped u seen a t →
      Stepped s (s :: seen) a t

/-- Installing the blocks once more changes nothing. -/
theorem ready_step (s : Session) : s.step.2.ready = s.ready.step.2 := by
  have hstate := s.ready.step_eq_with_state
  change s.ready.step.2.withProgram s.program = s.ready.step.2
  rw [hstate]
  rfl

theorem ready_after (i : Nat) (s : Session) : (s.after i).ready = s.ready.after i := by
  induction i generalizing s with
  | zero => rfl
  | succ i ih =>
    calc (s.step.2.after i).ready
      _ = s.step.2.ready.after i := ih s.step.2
      _ = s.ready.step.2.after i := by rw [ready_step]

/-- A session that is stepped goes through the states of its machine with the blocks installed. -/
theorem state_after (i : Nat) (s : Session) : (s.after i).state = (s.ready.after i).state := by
  calc (s.after i).state
    _ = (s.after i).ready.state := rfl
    _ = (s.ready.after i).state := by rw [ready_after]

/-- From the first step on, the session holds the machine with the blocks installed. -/
theorem after_succ_eq (i : Nat) (s : Session) :
    s.after (i + 1) = { s with machine := s.ready.after (i + 1) } := by
  induction i generalizing s with
  | zero => rfl
  | succ i ih =>
    have hnext := ih s.step.2
    rw [ready_step] at hnext
    exact hnext

/-- The rows of a walk are counted by the instructions executed. -/
theorem stepped_of_executes {k : Nat} {s : Session} {m t : Machine} (h : m.Executes k t)
    (hs : s.ready = m) (ht : t.step.1 ≠ .ok true) :
    Stepped s ((List.range (k + 1)).map fun i => s.after i) t.step.1 (s.after (k + 1)) := by
  induction h generalizing s with
  | refl =>
    subst hs
    exact .last rfl ht
  | @step k m u t hstep _ ih =>
    have hready : s.step.2.ready = u := by rw [ready_step, hs, hstep]
    have hnext : s.step = (.ok true, s.step.2) := by
      have hanswer : s.step.1 = m.step.1 := congrArg (fun m => m.step.1) hs
      rw [hstep] at hanswer
      exact Prod.ext hanswer rfl
    have hseen : (List.range (k + 1 + 1)).map (fun i => s.after i) =
        s :: (List.range (k + 1)).map fun i => s.step.2.after i := by
      rw [List.range_succ_eq_map, List.map_cons, List.map_map]
      rfl
    rw [hseen]
    exact .next hnext (ih hready ht)

/-- The counted loop is the loop, provided that the count allows for its steps. -/
theorem walkFor_of_stepped {s t : Session} {seen : List Session} {a : Except Overflow Bool}
    (h : Stepped s seen a t) {n : Nat} (hn : seen.length ≤ n) (before : List Session) :
    walkFor n s (s :: before) = ⟨before.reverse ++ seen, a, t⟩ := by
  -- the counted loop notes a session when it gets there, the other one when it leaves it
  induction h generalizing n before with
  | @last s a t hstep ha =>
    obtain ⟨n, rfl⟩ := Nat.exists_eq_add_of_le' (show 1 ≤ n from hn)
    rw [walkFor, hstep, ← List.reverse_cons]
    match a with
    | .ok true => exact absurd rfl ha
    | .ok false | .error e => rfl
  | @next s u seen a t hstep _ ih =>
    rw [List.length_cons] at hn
    obtain ⟨n, rfl⟩ := Nat.exists_eq_add_of_le' (show 1 ≤ n by omega)
    have hrest := ih (show seen.length ≤ n by omega) (s :: before)
    rw [walkFor, hstep]
    simpa only [List.reverse_cons, List.append_assoc, List.singleton_append] using hrest

structure Course (s : Session) (k : Nat) : Prop where
  executes : s.ready.Executes k (s.ready.after k)
  within : k ≤ s.machine.maxSteps
  running : (s.ready.after k).halted = false
  ended : (s.ready.after k).step.1 ≠ .ok true
  run_eq : k < s.machine.maxSteps ∧ s.ready.run = (s.ready.after k).step ∨
    k = s.machine.maxSteps ∧ s.ready.run = (.ok true, s.ready.after k)

namespace Course

variable {s : Session} {k : Nat}

theorem stepCount_eq (h : Course s k) (hcount : s.state.stepCount = 0) {i : Nat}
    (hi : i ≤ k) : (s.after i).state.stepCount = i := by
  have hcounted : (s.ready.after i).state.stepCount = s.state.stepCount + i :=
    (h.executes.take hi).stepCount_eq
  rw [state_after]
  omega

theorem stepped (h : Course s k) : Stepped s ((List.range (k + 1)).map fun i => s.after i)
    (s.ready.after k).step.1 (s.after (k + 1)) :=
  stepped_of_executes h.executes rfl h.ended

theorem walk_eq (h : Course s k) (hcount : s.state.stepCount = 0) :
    s.walk = ⟨(List.range (k + 1)).map fun i => s.after i, (s.ready.after k).step.1,
      s.after (k + 1)⟩ := by
  have hwithin := h.within
  have hlength : ((List.range (k + 1)).map fun i => s.after i).length ≤
      s.machine.maxSteps - s.state.stepCount + 1 := by
    rw [List.length_map, List.length_range]
    omega
  exact walkFor_of_stepped h.stepped hlength []

/-- Either the step that ends the walk ends the run, or the run leaves it out. -/
theorem ends (h : Course s k) (hcount : s.state.stepCount = 0) :
    (k < s.machine.maxSteps ∧ s.run = (s.walk.answer, s.walk.last) ∧
        s.run.2.state.stepCount = k ∧ s.run.2.state.halt ≠ none) ∨
      (k = s.machine.maxSteps ∧ s.run.1 = .ok true ∧ s.walk.answer = .ok false ∧
        s.run.2.state.stepCount = k ∧ s.run.2.state.halt = none ∧
        s.walk.last = { s.run.2 with machine := s.run.2.machine.haltWith .stepBudget }) := by
  have hwalk := h.walk_eq hcount
  have hsteps : (s.ready.after k).state.stepCount = k := by
    rw [← state_after]
    exact h.stepCount_eq hcount (Nat.le_refl k)
  have hact : s.run = (s.ready.run.1, { s with machine := s.ready.run.2 }) := rfl
  rcases h.run_eq with ⟨hbelow, hrun⟩ | ⟨hspent, hrun⟩
  · -- the run ends with the step that ends the walk
    left
    have hpair := (Prod.eta (s.ready.after k).step).symm
    obtain ⟨r, hr, -⟩ := Machine.haltWith_of_step h.running hpair h.ended
    rw [hact, hrun, hwalk, after_succ_eq, Machine.after_succ]
    refine ⟨hbelow, rfl, ?_, ?_⟩
    · change (s.ready.after k).step.2.state.stepCount = k
      rw [hr]
      exact hsteps
    · change (s.ready.after k).step.2.state.halt ≠ none
      rw [hr]
      exact Option.some_ne_none r
  · -- the run leaves out the step that finds the budget spent
    right
    have hmax : (s.ready.after k).maxSteps = s.machine.maxSteps := h.executes.maxSteps_eq
    have hstep := Machine.step_of_case (.spent h.running (by omega))
    have hnone : (s.ready.after k).state.halt = none := by
      have hrunning := h.running
      simpa [Machine.halted, State.halted] using hrunning
    rw [hact, hrun, hwalk, after_succ_eq, Machine.after_succ, hstep]
    exact ⟨hspent, rfl, rfl, hsteps, hnone, rfl⟩

end Course

end BlockMachine.Session
