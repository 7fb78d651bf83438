import BlockMachine.Proofs.Machine.Calls

namespace BlockMachine.Machine

/-- The calls do a run piece by piece: with runs whose budgets are at most `n`, and with steps that
the budget at hand, which is at most `n` too, allows for. -/
inductive Slices (n : Nat) : Machine → List Call → Prop
  | done {m} : Slices n m []
  | run {m k calls} : k ≤ n → Slices n (m.withMaxSteps k).run.2 calls →
      Slices n m (.limit k :: .run :: calls)
  | step {m calls} : m.maxSteps ≤ n → m.state.stepCount < m.maxSteps → Slices n m.step.2 calls →
      Slices n m (.step :: calls)

/-- With the budget `n`, the machine that is left behind a call runs to where the machine before
the call does. If the call was not the end of the run, the answer is the same too. -/
structure Resumes (n : Nat) (m : Machine) (r : Except Overflow Bool × Machine) : Prop where
  machine : (r.2.withMaxSteps n).run.2 = (m.withMaxSteps n).run.2
  answer : r.1 = .ok true → (r.2.withMaxSteps n).run.1 = (m.withMaxSteps n).run.1

variable {m t u : Machine} {r : Except Overflow Bool × Machine} {n : Nat}

theorem Resumes.trans (h : Resumes n m (.ok true, t)) (ht : Resumes n t r) : Resumes n m r where
  machine := ht.machine.trans h.machine
  answer hr := (ht.answer hr).trans (h.answer rfl)

theorem run_of_step (h : m.step = (.ok true, t)) : m.run = t.run := by
  obtain ⟨-, hbelow, hcount, -⟩ := counts_of_step h
  have hmax := maxSteps_of_step h
  have hleft : m.maxSteps - m.state.stepCount = t.maxSteps - t.state.stepCount + 1 := by omega
  rw [run, hleft, runFor_succ_of_step h]
  rfl

/-- A step that executes nothing is a run in itself, unless the budget was spent before. -/
theorem run_of_stop (hbelow : m.state.stepCount < m.maxSteps) (h : m.step.1 ≠ .ok true) :
    m.run = m.step := by
  obtain ⟨k, hk⟩ := Nat.exists_eq_add_of_lt hbelow
  have hleft : m.maxSteps - m.state.stepCount = k + 1 := by omega
  rw [run, hleft]
  exact runFor_succ_of_stop (Prod.eta m.step).symm h k

/-- Two budgets that both allow for a step allow for the same one. -/
theorem step_withMaxSteps (hbelow : m.state.stepCount < m.maxSteps)
    (hn : m.state.stepCount < n) :
    (m.withMaxSteps n).step = (m.step.1, m.step.2.withMaxSteps n) := by
  have hspent : n ≤ m.state.stepCount ↔ m.maxSteps ≤ m.state.stepCount := by omega
  have htracks : Tracks (withMaxSteps · n) id m := by
    refine ⟨fun _ => rfl, fun _ => rfl, rfl, hspent, fun _ _ hc => hc, ?_⟩
    intro i hi
    exact ⟨i, hi.current, (congrFun Except.map_id _).symm⟩
  exact htracks.step

theorem resumes_step (hn : m.maxSteps ≤ n) (hbelow : m.state.stepCount < m.maxSteps) :
    Resumes n m m.step := by
  have hstep := step_withMaxSteps hbelow (Nat.lt_of_lt_of_le hbelow hn)
  by_cases h : m.step.1 = .ok true
  · rw [h] at hstep
    have hrun := run_of_step hstep
    exact ⟨by rw [hrun], fun _ => by rw [hrun]⟩
  · -- the run with the larger budget ends here too
    have hlarge : (m.withMaxSteps n).state.stepCount < (m.withMaxSteps n).maxSteps :=
      Nat.lt_of_lt_of_le hbelow hn
    have hstop : (m.withMaxSteps n).step.1 ≠ .ok true := by
      rw [hstep]
      exact h
    have hhalted : (m.step.2.withMaxSteps n).halted = true := halted_of_stop h
    refine ⟨?_, fun htrue => absurd htrue h⟩
    calc (m.step.2.withMaxSteps n).run.2
      _ = m.step.2.withMaxSteps n := congrArg Prod.snd (runFor_of_halted hhalted _)
      _ = (m.withMaxSteps n).step.2 := by rw [hstep]
      _ = (m.withMaxSteps n).run.2 := by rw [run_of_stop hlarge hstop]

theorem Ran.resumes (h : Ran m r) (hn : m.maxSteps ≤ n) : Resumes n m r := by
  induction h with
  | done => exact ⟨rfl, fun _ => rfl⟩
  | @step m u r _ hbelow hstep _ ih =>
    have hfirst := resumes_step hn hbelow
    rw [hstep] at hfirst
    have hmax := maxSteps_of_step hstep
    exact hfirst.trans (ih (by omega))
  | @stop m u hrunning hbelow hstep =>
    have hfirst := resumes_step hn hbelow
    rw [hstep] at hfirst
    have hhalted := halted_of_step hrunning hstep (by simp)
    refine ⟨hfirst.machine, fun htrue => ?_⟩
    rw [hhalted] at htrue
    cases htrue
  | @fault m u e _ hbelow hstep =>
    have hfirst := resumes_step hn hbelow
    rw [hstep] at hfirst
    exact ⟨hfirst.machine, hfirst.answer⟩

/-- Setting a budget of at most `n` and running is a slice. -/
theorem resumes_run {k : Nat} (hk : k ≤ n) : Resumes n m (m.withMaxSteps k).run := by
  have hran := ran_run (m.withMaxSteps k)
  have hresumes := hran.resumes hk
  exact ⟨hresumes.machine, hresumes.answer⟩

/-- A run can be cut into slices, be they single steps or runs with smaller budgets: running on
with the whole budget leaves the machine where one run leaves it. If no slice came to the end of
the run, the answer is that of the one run, too. -/
theorem run_after_slices {calls : List Call} (h : Slices n m calls) :
    ((m.afterCalls calls).withMaxSteps n).run.2 = (m.withMaxSteps n).run.2 ∧
      ((∀ a, some a ∈ m.replies calls → a = .ok true) →
        ((m.afterCalls calls).withMaxSteps n).run.1 = (m.withMaxSteps n).run.1) := by
  induction h with
  | done => exact ⟨rfl, fun _ => rfl⟩
  | @run m k calls hk _ ih =>
    have hslice := resumes_run (m := m) hk
    refine ⟨ih.1.trans hslice.machine, fun hall => ?_⟩
    have hrest := ih.2 fun a ha => hall a (List.mem_cons_of_mem _ (List.mem_cons_of_mem _ ha))
    have htrue := hall _ (List.mem_cons_of_mem _ List.mem_cons_self)
    exact hrest.trans (hslice.answer htrue)
  | @step m calls hn hbelow _ ih =>
    have hslice := resumes_step hn hbelow
    refine ⟨ih.1.trans hslice.machine, fun hall => ?_⟩
    have hrest := ih.2 fun a ha => hall a (List.mem_cons_of_mem _ ha)
    have htrue := hall _ List.mem_cons_self
    exact hrest.trans (hslice.answer htrue)

/-- Two items are copied in a step and two runs, of which the second stops just before the halt. -/
theorem copying_in_slices :
    let p : Program := { instructions :=
      [⟨0, .inbox, some "loop"⟩, ⟨1, .outbox, none⟩, ⟨2, .jump "loop", none⟩] }
    let m := fresh p 2 [3, 4]
    let calls : List Call := [.step, .limit 4, .run, .limit 6, .run]
    m.replies calls = [some (.ok true), none, some (.ok true), none, some (.ok true)] ∧
      (m.withMaxSteps 9).run.2.state.halt = some .inboxEmpty ∧
      ((m.afterCalls calls).withMaxSteps 9).run = (m.withMaxSteps 9).run := by
  intro p m calls
  have hslices : Slices 9 m calls :=
    .step (by decide) (by decide) (.run (by decide) (.run (by decide) .done))
  have hreplies : m.replies calls =
      [some (.ok true), none, some (.ok true), none, some (.ok true)] := by rfl
  have hhalt : (m.withMaxSteps 9).run.2.state.halt = some .inboxEmpty := by rfl
  have hall : ∀ a, some a ∈ m.replies calls → a = .ok true := by simp [hreplies]
  obtain ⟨hmachine, hanswer⟩ := run_after_slices hslices
  exact ⟨hreplies, hhalt, Prod.ext (hanswer hall) hmachine⟩

end BlockMachine.Machine
