import BlockMachine.Proofs.Machine.Steps

namespace BlockMachine.Machine

def traceFor : Nat → Machine → List Instruction
  | 0, _ => []
  | n + 1, m =>
    match m.step with
    | (.ok true, next) => m.current?.toList ++ traceFor n next
    | _ => []

def trace (m : Machine) : List Instruction := traceFor (m.maxSteps - m.state.stepCount) m

inductive Traces : Machine → List Instruction → Machine → Prop
  | refl {m} : Traces m [] m
  | step {m u t i is} : m.current? = some i → m.step = (.ok true, u) → Traces u is t →
      Traces m (i :: is) t

structure Halts (m : Machine) (is : List Instruction) (t : Machine) : Prop where
  traces : Traces m is t
  running : t.halted = false
  below : t.state.stepCount < t.maxSteps
  ends : t.step.1 ≠ .ok true

variable {m t : Machine} {is : List Instruction}

theorem traceFor_succ_of_step {i : Instruction} (hi : m.current? = some i)
    (h : m.step = (.ok true, t)) (n : Nat) : traceFor (n + 1) m = i :: traceFor n t := by
  rw [traceFor, h, hi]
  rfl

theorem traceFor_succ_of_stop {a : Except Overflow Bool} (h : m.step = (a, t)) (ha : a ≠ .ok true)
    (n : Nat) : traceFor (n + 1) m = [] := by
  rw [traceFor, h]
  rcases a with e | _ | _
  · rfl
  · rfl
  · exact absurd rfl ha

theorem Traces.executes (h : Traces m is t) : Executes is.length m t := by
  induction h with
  | refl => exact .refl
  | step _ hstep _ ih => exact .step hstep ih

theorem Traces.trans {u : Machine} {js : List Instruction} (h : Traces m is u)
    (hu : Traces u js t) : Traces m (is ++ js) t := by
  induction h with
  | refl => exact hu
  | step hi hstep _ ih => exact .step hi hstep (ih hu)

theorem current_of_step {u : Machine} (h : m.step = (.ok true, u)) : ∃ i, m.current? = some i := by
  have hcase := m.stepCase
  rw [h] at hcase
  cases hcase with
  | executed hi => exact ⟨_, hi.current⟩

/-- Whatever a machine executes can be listed. -/
theorem Executes.exists_traces {k : Nat} (h : Executes k m t) : ∃ is, Traces m is t := by
  induction h with
  | refl => exact ⟨[], .refl⟩
  | step hstep _ ih =>
    obtain ⟨i, hi⟩ := current_of_step hstep
    obtain ⟨is, his⟩ := ih
    exact ⟨i :: is, .step hi hstep his⟩

/-- A run that leaves the machine halted ends with the step that halts it. -/
theorem exists_halts (hm : m.halted = false) (h : m.run.2.halted = true) :
    ∃ is t, Halts m is t := by
  obtain ⟨k, t, hk, ht, hend, hrun⟩ := (ran_run m).executes hm
  obtain ⟨is, his⟩ := hk.exists_traces
  rcases hrun with ⟨-, hbelow⟩ | ⟨hrun, -⟩
  · exact ⟨is, t, his, ht, hbelow, hend⟩
  · rw [hrun, ht] at h
    cases h

namespace Halts

/-- The budget need only allow for one step more than there are instructions. -/
theorem runFor_eq (h : Halts m is t) {n : Nat} (hn : is.length < n) :
    runFor n m = t.step ∧ traceFor n m = is := by
  obtain ⟨htraces, hrunning, hbelow, hends⟩ := h
  induction htraces generalizing n with
  | @refl m =>
    obtain ⟨n, rfl⟩ := Nat.exists_eq_add_of_lt hn
    rcases hstep : m.step with ⟨a, u⟩
    rw [hstep] at hends
    exact ⟨runFor_succ_of_stop hstep hends _, traceFor_succ_of_stop hstep hends _⟩
  | @step m u t i is hi hstep _ ih =>
    rw [List.length_cons] at hn
    obtain ⟨n, rfl⟩ := Nat.exists_eq_add_of_le' (show 1 ≤ n by omega)
    obtain ⟨hrun, htrace⟩ := ih (show is.length < n by omega) hrunning hbelow hends
    rw [runFor_succ_of_step hstep, traceFor_succ_of_step hi hstep, hrun, htrace]
    exact ⟨rfl, rfl⟩

/-- The budget allows for the step that halts the machine, too. -/
theorem length_lt (h : Halts m is t) : is.length < m.maxSteps - m.state.stepCount := by
  have hbelow := h.below
  have hcount := h.traces.executes.stepCount_eq
  have hmax := h.traces.executes.maxSteps_eq
  omega

/-- The step after the last instruction answers for the run and leaves what the run leaves. -/
theorem run_eq (h : Halts m is t) : m.run = t.step := (h.runFor_eq h.length_lt).1

theorem trace_eq (h : Halts m is t) : m.trace = is := (h.runFor_eq h.length_lt).2

/-- The step that halts the machine is not counted. -/
theorem stepCount_eq (h : Halts m is t) :
    m.run.2.state.stepCount = m.state.stepCount + is.length := by
  obtain ⟨r, hr, -⟩ := haltWith_of_step h.running (Prod.eta t.step).symm h.ends
  rw [h.run_eq, hr]
  exact h.traces.executes.stepCount_eq

theorem halted (h : Halts m is t) : m.run.2.halted = true := by
  rw [h.run_eq]
  exact halted_of_step h.running (Prod.eta t.step).symm h.ends

end Halts

/-- A run goes on as long as instructions are executed, and ends with the step that executes none. -/
theorem Executes.run_eq {k : Nat} {a : Except Overflow Bool} {u : Machine} (h : Executes k m t)
    (hrunning : t.halted = false) (hbelow : t.state.stepCount < t.maxSteps)
    (hstep : t.step = (a, u)) (ha : a ≠ .ok true) : m.run = (a, u) := by
  obtain ⟨is, his⟩ := h.exists_traces
  have hhalts : Halts m is t := by
    refine ⟨his, hrunning, hbelow, ?_⟩
    rw [hstep]
    exact ha
  exact hhalts.run_eq.trans hstep

end BlockMachine.Machine
