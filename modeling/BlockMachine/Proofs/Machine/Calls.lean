import BlockMachine.Proofs.Machine.Trace

/-! Calls one after the other, in any order: steps, runs, new programs, new budgets and fresh
starts. Whatever the calls are, between two fresh starts the state only ever changes by an
instruction that is executed and by the halt, after which it does not change. -/
namespace BlockMachine

inductive Call where
  | step
  | run
  | install (blocks : List Instruction)
  | limit (n : Nat)
  | restart
  | reset (q : Puzzle)
  deriving DecidableEq

namespace Call

def goesOn : Call → Bool
  | step | run | install _ | limit _ => true
  | restart | reset _ => false

def keepsProgram : Call → Bool
  | install _ => false
  | step | run | limit _ | restart | reset _ => true

def blocks : Call → List Instruction
  | install is => is
  | step | run | limit _ | restart | reset _ => []

end Call

namespace State

inductive Course : State → List Instruction → State → Prop
  | refl {s} : Course s [] s
  | halt {s r} : s.halted = false → Course s [] { s with halt := some r }
  | execute {p s t u i is} : s.halted = false → s.perform p i.op = .ok t → Course t is u →
      Course s (i :: is) u

variable {s t u : State} {is js : List Instruction}

theorem Course.trans (h : Course s is t) (ht : Course t js u) : Course s (is ++ js) u := by
  induction h with
  | refl => exact ht
  | halt hrunning =>
    cases ht with
    | refl => exact .halt hrunning
    | halt hhalted | execute hhalted => cases hhalted
  | execute hrunning hs _ ih => exact .execute hrunning hs (ih ht)

/-- Nothing is executed after a halt, and there is no second halt. -/
theorem Course.eq_of_halted (h : Course s is t) (hs : s.halted = true) : t = s := by
  cases h with
  | refl => rfl
  | halt hrunning | execute hrunning => simp [hrunning] at hs

/-- The halt is not counted as a step. -/
theorem Course.stepCount_eq (h : Course s is t) : t.stepCount = s.stepCount + is.length := by
  induction h with
  | refl | halt => rfl
  | execute _ hs _ ih =>
    have hcount := (follows_perform hs).count
    rw [List.length_cons]
    omega

end State

namespace Machine

def call (m : Machine) : Call → Option (Except Overflow Bool) × Machine
  | .step => (some m.step.1, m.step.2)
  | .run => (some m.run.1, m.run.2)
  | .install blocks => (none, m.install blocks)
  | .limit n => (none, m.withMaxSteps n)
  | .restart => (none, m.restart)
  | .reset q => (none, m.reset q)

def afterCalls : List Call → Machine → Machine
  | [], m => m
  | c :: calls, m => afterCalls calls (m.call c).2

def replies : List Call → Machine → List (Option (Except Overflow Bool))
  | [], _ => []
  | c :: calls, m => (m.call c).1 :: replies calls (m.call c).2

def executedBy (m : Machine) : Call → List Instruction
  | .step => traceFor 1 m
  | .run => m.trace
  | .install _ | .limit _ | .restart | .reset _ => []

def executed : List Call → Machine → List Instruction
  | [], _ => []
  | c :: calls, m => m.executedBy c ++ executed calls (m.call c).2

def blocksInForce (calls : List Call) (m : Machine) : List Instruction :=
  m.program.instructions ++ calls.flatMap Call.blocks

variable {m t : Machine} {calls : List Call}

/-- What is kept by each of the calls is kept by all of them. -/
theorem afterCalls_keeps {P : Machine → Prop} (h : ∀ c ∈ calls, ∀ m, P m → P (m.call c).2)
    (hm : P m) : P (m.afterCalls calls) := by
  induction calls generalizing m with
  | nil => exact hm
  | cons c calls ih =>
    obtain ⟨hc, hrest⟩ := List.forall_mem_cons.mp h
    exact ih hrest (hc m hm)

theorem course_of_step {a : Except Overflow Bool} (h : m.step = (a, t)) (ha : a ≠ .ok true) :
    m.state.Course [] t.state := by
  have hcase := m.stepCase
  rw [h] at hcase
  cases hcase with
  | halted => exact .refl
  | spent hrunning | ended hrunning => exact .halt hrunning
  | starved hi | faulted hi => exact .halt hi.running
  | executed => exact absurd rfl ha

/-- A step that says so has carried out the instruction at the pointer. -/
theorem exists_perform_of_step (h : m.step = (.ok true, t)) :
    ∃ i, m.Executing i ∧ m.state.perform m.program i.op = .ok t.state := by
  have hcase := m.stepCase
  rw [h] at hcase
  cases hcase with
  | executed hi hs => exact ⟨_, hi, hs⟩

theorem course_runFor (n : Nat) (m : Machine) :
    m.state.Course (traceFor n m) (runFor n m).2.state := by
  induction n generalizing m with
  | zero => exact .refl
  | succ n ih =>
    rcases hstep : m.step with ⟨a, t⟩
    by_cases ha : a = .ok true
    · subst ha
      obtain ⟨i, hi, hs⟩ := exists_perform_of_step hstep
      rw [runFor_succ_of_step hstep, traceFor_succ_of_step hi.current hstep]
      exact .execute hi.running hs (ih t)
    · rw [runFor_succ_of_stop hstep ha, traceFor_succ_of_stop hstep ha]
      exact course_of_step hstep ha

theorem runFor_one (m : Machine) : (runFor 1 m).2 = m.step.2 := by
  rcases hstep : m.step with ⟨a, t⟩
  by_cases ha : a = .ok true
  · subst ha
    rw [runFor_succ_of_step hstep]
    rfl
  · rw [runFor_succ_of_stop hstep ha]

/-- Whatever is called, unless it is a fresh start, the state changes by the instructions executed.
-/
theorem course_call {c : Call} (hc : c.goesOn = true) (m : Machine) :
    m.state.Course (m.executedBy c) (m.call c).2.state := by
  cases c with
  | step =>
    have hstep := course_runFor 1 m
    rw [runFor_one] at hstep
    exact hstep
  | run => exact course_runFor _ m
  | install | limit => exact .refl
  | restart | reset => cases hc

/-- Calls of which none is a fresh start, whatever programs and budgets they bring, do nothing to
the state but execute instructions and halt the machine. -/
theorem course_afterCalls (h : ∀ c ∈ calls, c.goesOn = true) (m : Machine) :
    m.state.Course (m.executed calls) (m.afterCalls calls).state := by
  induction calls generalizing m with
  | nil => exact .refl
  | cons c calls ih =>
    obtain ⟨hc, hcalls⟩ := List.forall_mem_cons.mp h
    have hfirst := course_call hc m
    have hrest := ih hcalls (m.call c).2
    exact hfirst.trans hrest

theorem mem_of_mem_traceFor {n : Nat} {i : Instruction} (h : i ∈ traceFor n m) :
    i ∈ m.program.instructions := by
  induction n generalizing m with
  | zero => cases h
  | succ n ih =>
    rw [traceFor] at h
    split at h
    · next next hstep =>
      rcases List.mem_append.mp h with h | h
      · have hget : m.current? = some i := Option.mem_toList.mp h
        exact List.mem_of_getElem? hget
      · rw [← program_of_step hstep]
        exact ih h
    · cases h

theorem mem_of_mem_executedBy {c : Call} {i : Instruction} (h : i ∈ m.executedBy c) :
    i ∈ m.program.instructions := by
  cases c with
  | step | run => exact mem_of_mem_traceFor h
  | install | limit | restart | reset => cases h

theorem after_eq_with_state (j : Nat) (m : Machine) :
    after j m = { m with state := (after j m).state } := by
  induction j generalizing m with
  | zero => rfl
  | succ j ih =>
    calc after j m.step.2
      _ = { m.step.2 with state := (after j m.step.2).state } := ih m.step.2
      _ = { m with state := (after j m.step.2).state } :=
        congrArg (fun t : Machine => { t with state := (after j m.step.2).state })
          m.step_eq_with_state

/-- A run changes the state and nothing else. -/
theorem run_eq_with_state (m : Machine) : m.run.2 = { m with state := m.run.2.state } := by
  rw [run, machine_runFor]
  exact after_eq_with_state _ m

theorem program_call (m : Machine) {c : Call} (hc : c.keepsProgram = true) :
    (m.call c).2.program = m.program := by
  cases c with
  | step => exact program_of_step (Prod.eta m.step).symm
  | run =>
    have hrun := congrArg program m.run_eq_with_state
    exact hrun
  | limit | restart | reset => rfl
  | install => cases hc

/-- A call brings in no blocks but its own. -/
theorem mem_of_mem_program_call {c : Call} {i : Instruction}
    (h : i ∈ (m.call c).2.program.instructions) : i ∈ m.program.instructions ++ c.blocks := by
  cases c with
  | install is => exact List.mem_append_right _ ((Program.ofList_perm is).mem_iff.mp h)
  | step | run | limit | restart | reset =>
    rw [program_call m rfl] at h
    exact List.mem_append_left _ h

/-- Only blocks that were there or that were installed are executed. -/
theorem mem_blocksInForce_of_mem_executed {i : Instruction} (h : i ∈ m.executed calls) :
    i ∈ m.blocksInForce calls := by
  induction calls generalizing m with
  | nil => cases h
  | cons c calls ih =>
    rw [blocksInForce, List.flatMap_cons, ← List.append_assoc]
    rcases List.mem_append.mp h with h | h
    · have hprogram := mem_of_mem_executedBy h
      exact List.mem_append_left _ (List.mem_append_left _ hprogram)
    · rcases List.mem_append.mp (ih h) with h | h
      · exact List.mem_append_left _ (mem_of_mem_program_call h)
      · exact List.mem_append_right _ h

end Machine

end BlockMachine
