import BlockMachine.Proofs.Machine.Slices

/-! What the next steps depend on. It is the configuration: the address, the accumulator, the inbox and
the memory. What was put out and how much was executed is never looked at, as long as the budget is
not spent, and so a run that comes back to a configuration never halts. -/
namespace BlockMachine

namespace State

structure SameConfiguration (s t : State) : Prop where
  pc : s.pc = t.pc
  accumulator : s.accumulator = t.accumulator
  inbox : s.inbox = t.inbox
  memory : s.memory = t.memory

theorem SameConfiguration.trans {s t u : State} (h : s.SameConfiguration t)
    (ht : t.SameConfiguration u) : s.SameConfiguration u :=
  ⟨h.pc.trans ht.pc, h.accumulator.trans ht.accumulator, h.inbox.trans ht.inbox,
    h.memory.trans ht.memory⟩

def withPast (s : State) (count : Nat) (sent : List Int) : State :=
  { s with stepCount := count + s.stepCount, sent := s.sent ++ sent }

theorem sameConfiguration_withPast (s : State) (count count' : Nat) (sent sent' : List Int) :
    (s.withPast count sent).SameConfiguration (s.withPast count' sent') := ⟨rfl, rfl, rfl, rfl⟩

/-- No operation can tell what was before it, not even the one that adds to the outbox. -/
theorem perform_withPast (p : Program) (s : State) (op : Op) (count : Nat) (sent : List Int) :
    (s.withPast count sent).perform p op = (s.perform p op).map (·.withPast count sent) := by
  obtain ⟨pc, n, halt, acc, inbox, out, mem⟩ := s
  cases op with
  | inbox => cases inbox <;> rfl
  | outbox | copyTo c => cases acc <;> rfl
  | add c | sub c =>
    cases acc with
    | none => rfl
    | some v => exact calculate_map (withPast · count sent) rfl (fun _ => rfl) _ _ _ _
  | copyFrom | jump | unconfigured => rfl
  | jumpIfZero | jumpIfNegative =>
    simp only [perform, Except.map, apply_ite (withPast · count sent)]
    rfl

end State

namespace Machine

variable {m m' t u x : Machine} {j k : Nat}

def continuedAs (m x : Machine) : Machine :=
  { m with state := x.state.withPast m.state.stepCount m.state.sent }

def withoutPast (m : Machine) (j : Nat) : Machine :=
  { m with maxSteps := j, state := { m.state with stepCount := 0, sent := [] } }

theorem continuedAs_withoutPast (m : Machine) (j : Nat) : m.continuedAs (m.withoutPast j) = m := rfl

structure MakesRoomFor (m x : Machine) : Prop where
  program : x.program = m.program
  budget : m.state.stepCount + x.maxSteps ≤ m.maxSteps

theorem MakesRoomFor.step (h : m.MakesRoomFor x) : m.MakesRoomFor x.step.2 := by
  have hstep := (Prod.eta x.step).symm
  refine ⟨(program_of_step hstep).trans h.program, ?_⟩
  rw [maxSteps_of_step hstep]
  exact h.budget

/-- A step that the budget allows for is the same with any past. -/
theorem step_continuedAs (h : m.MakesRoomFor x) (hstep : x.step.2.state.halt ≠ some .stepBudget) :
    (m.continuedAs x).step = (x.step.1, m.continuedAs x.step.2) := by
  by_cases hx : x.halted = true
  · -- no step changes a machine that is halted
    have hm : (m.continuedAs x).halted = true := hx
    rw [step_of_halted hx, step_of_halted hm]
  · have hrunning : x.halted = false := Bool.eq_false_iff.mpr hx
    have hbelow : x.state.stepCount < x.maxSteps := by
      apply Nat.lt_of_not_le
      intro hspent
      rw [step_of_case (.spent hrunning hspent)] at hstep
      exact hstep rfl
    have hroom := h.budget
    have hspent : m.maxSteps ≤ m.state.stepCount + x.state.stepCount ↔
        x.maxSteps ≤ x.state.stepCount := by omega
    have hcurrent : (m.continuedAs x).current? = x.current? := by
      change m.program.get? _ = x.program.get? _
      rw [h.program]
      rfl
    have htracks : Tracks m.continuedAs (·.withPast m.state.stepCount m.state.sent) x := by
      refine ⟨fun _ => rfl, fun _ => rfl, rfl, hspent, ?_, ?_⟩
      · intro _ _ hended
        rw [hcurrent]
        exact hended
      · intro i hi
        refine ⟨i, hcurrent.trans hi.current, ?_⟩
        rw [h.program]
        exact State.perform_withPast ..
    exact htracks.step

theorem after_continuedAs (h : m.MakesRoomFor x)
    (hj : (after j x).state.halt ≠ some .stepBudget) :
    answers j (m.continuedAs x) = answers j x ∧
      after j (m.continuedAs x) = m.continuedAs (after j x) :=
  after_image (fun _ => MakesRoomFor.step) (fun _ => step_continuedAs) h hj

/-- A budget that allows for so many steps does not end any of them. -/
theorem halt_ne_stepBudget (hm : m.state.halt ≠ some .stepBudget)
    (hj : m.state.stepCount + j ≤ m.maxSteps) : (after j m).state.halt ≠ some .stepBudget := by
  induction j generalizing m with
  | zero => exact hm
  | succ j ih =>
    have hcase := m.stepCase
    rw [after]
    rcases hstep : m.step with ⟨a, t⟩
    rw [hstep] at hcase
    cases hcase with
    | halted hh =>
      rw [after_of_halted hh]
      exact hm
    | spent _ hspent => omega
    | ended | starved | faulted =>
      rw [after_of_halted rfl]
      simp [haltWith]
    | executed hi hs =>
      have hfollows := State.follows_perform hs
      apply ih
      · rw [← hfollows.halt] at hm
        exact hm
      · change _ + j ≤ m.maxSteps
        rw [hfollows.count]
        omega

structure Twins (m m' : Machine) : Prop where
  program : m'.program = m.program
  running : m.halted = false
  running' : m'.halted = false
  same : m.state.SameConfiguration m'.state

structure StepAlike (j : Nat) (m m' : Machine) : Prop where
  answers : m'.answers j = m.answers j
  same : (m.after j).state.SameConfiguration (m'.after j).state
  halt : (m'.after j).state.halt = (m.after j).state.halt
  outbox : ∃ added, (m.after j).state.outbox = m.state.outbox ++ added ∧
    (m'.after j).state.outbox = m'.state.outbox ++ added

theorem halt_eq_none (hm : m.halted = false) : m.state.halt = none := by
  rw [halted, State.halted] at hm
  simpa using hm

theorem Twins.continuedAs_withoutPast (h : Twins m m') (j : Nat) :
    m'.continuedAs (m.withoutPast j) = m' := by
  have hm := halt_eq_none h.running
  have hm' := halt_eq_none h.running'
  obtain ⟨hpc, hacc, hinbox, hmemory⟩ := h.same
  rw [continuedAs, State.withPast, withoutPast]
  simp only [hpc, hacc, hinbox, hmemory, hm]
  rw [← hm']
  rfl

/-- Both machines do what a machine does that has nothing in the past. -/
theorem Twins.stepAlike (h : Twins m m') (hj : m.state.stepCount + j ≤ m.maxSteps)
    (hj' : m'.state.stepCount + j ≤ m'.maxSteps) : StepAlike j m m' := by
  have hx : (m.withoutPast j).state.halt ≠ some .stepBudget := by
    change m.state.halt ≠ _
    rw [halt_eq_none h.running]
    simp
  have hj₀ : (m.withoutPast j).state.stepCount + j ≤ (m.withoutPast j).maxSteps :=
    Nat.le_of_eq (Nat.zero_add j)
  have hend := halt_ne_stepBudget hx hj₀
  have hroom : m.MakesRoomFor (m.withoutPast j) := ⟨rfl, hj⟩
  have hroom' : m'.MakesRoomFor (m.withoutPast j) := ⟨h.program.symm, hj'⟩
  obtain ⟨hanswers, hafter⟩ := after_continuedAs hroom hend
  obtain ⟨hanswers', hafter'⟩ := after_continuedAs hroom' hend
  rw [m.continuedAs_withoutPast j] at hanswers hafter
  rw [h.continuedAs_withoutPast j] at hanswers' hafter'
  refine ⟨hanswers'.trans hanswers.symm, ?_, ?_, ((m.withoutPast j).after j).state.outbox, ?_, ?_⟩
  · rw [hafter, hafter']
    exact State.sameConfiguration_withPast ..
  · rw [hafter, hafter']
    rfl
  · rw [hafter]
    exact List.reverse_append
  · rw [hafter']
    exact List.reverse_append

theorem Executes.answers_eq (h : Executes j m t) : ∀ a ∈ answers j m, a = .ok true := by
  induction h with
  | refl => exact List.forall_mem_nil _
  | step hstep _ ih =>
    rw [answers, hstep]
    exact List.forall_mem_cons.mpr ⟨rfl, ih⟩

theorem executes_of_answers (h : ∀ a ∈ answers j m, a = .ok true) :
    Executes j m (after j m) := by
  induction j generalizing m with
  | zero => exact .refl
  | succ j ih =>
    rw [answers] at h
    obtain ⟨hfirst, hrest⟩ := List.forall_mem_cons.mp h
    exact .step (Prod.ext hfirst rfl) (ih hrest)

theorem Executes.running (h : Executes j m t) (hm : m.halted = false) : t.halted = false := by
  induction h with
  | refl => exact hm
  | step hstep _ ih => exact ih (counts_of_step hstep).2.2.2

/-- What a run still executes behind a part of it. -/
theorem Executes.drop (h : Executes (j + k) m u) (ht : Executes j m t) : Executes k t u := by
  induction ht with
  | refl =>
    rw [Nat.zero_add] at h
    exact h
  | @step j m v t hstep _ ih =>
    rw [Nat.add_right_comm] at h
    cases h with
    | step hstep' hrest =>
      rw [hstep] at hstep'
      cases hstep'
      exact ih hrest

theorem Executes.after_of_le (h : Executes k m t) (hkj : k ≤ j) (hrest : Executes (j - k) t u) :
    Executes j m (after j m) := by
  have hall := h.trans hrest
  rw [Nat.add_sub_of_le hkj] at hall
  rw [← hall.eq_after]
  exact hall

/-- A machine in the same configuration executes as much, given the budget for it. -/
theorem Executes.of_twins (h : Executes j m t) (htwins : Twins m m')
    (hj : m'.state.stepCount + j ≤ m'.maxSteps) :
    Executes j m' (after j m') ∧ Twins t (after j m') := by
  cases j with
  | zero =>
    cases h
    exact ⟨.refl, htwins⟩
  | succ j =>
    have hleft := h.le_left
    have hsteps := htwins.stepAlike (j := j + 1) (by omega) hj
    have hexecutes : Executes (j + 1) m' (after (j + 1) m') := by
      apply executes_of_answers
      rw [hsteps.answers]
      exact h.answers_eq
    have ht := h.eq_after
    refine ⟨hexecutes, ?_, h.running htwins.running, hexecutes.running htwins.running', ?_⟩
    · rw [hexecutes.program_eq, h.program_eq, htwins.program]
    · rw [ht]
      exact hsteps.same

/-- A machine that executes instructions and is back where it was goes round and round. -/
theorem executes_of_return (hround : Executes k t u) (hk : 0 < k)
    (hback : t.state.SameConfiguration u.state) (htwins : Twins t m)
    (hj : m.state.stepCount + j ≤ m.maxSteps) : Executes j m (after j m) := by
  -- by induction on what is still to be executed, which a round makes less
  induction j using Nat.strongRecOn generalizing m with
  | ind j ih =>
    by_cases hle : j ≤ k
    · exact ((hround.take hle).of_twins htwins hj).1
    · have hfits : m.state.stepCount + k ≤ m.maxSteps := by omega
      obtain ⟨hfirst, hu⟩ := hround.of_twins htwins hfits
      have hagain : Twins t (after k m) := by
        refine ⟨?_, htwins.running, hu.running', hback.trans hu.same⟩
        rw [hu.program, hround.program_eq]
      have hcount := hfirst.stepCount_eq
      have hmax := hfirst.maxSteps_eq
      have hrest := ih (j - k) (by omega) hagain (by omega)
      exact hfirst.after_of_le (Nat.le_of_not_le hle) hrest

/-- A run that executes all that its budget allows for stops at the budget. -/
theorem Executes.run_of_spent (h : Executes k m t) (ht : t.halted = false)
    (hspent : t.maxSteps ≤ t.state.stepCount) : m.run = (.ok true, t) := by
  induction h with
  | @refl m =>
    rw [run, Nat.sub_eq_zero_of_le hspent, runFor, ht]
    rfl
  | step hstep _ ih =>
    rw [run_of_step hstep]
    exact ih ht hspent

/-- Behind the first time in a configuration, a machine that comes back to it executes as much as its
budget allows for. -/
theorem Executes.of_return {i : Nat} (ht : Executes i m t) (hround : Executes k t u) (hk : 0 < k)
    (hback : t.state.SameConfiguration u.state) (htwins : Twins m m')
    (hj : m'.state.stepCount + j ≤ m'.maxSteps) : Executes j m' (after j m') := by
  by_cases hle : j ≤ i
  · exact ((ht.take hle).of_twins htwins hj).1
  · have hfits : m'.state.stepCount + i ≤ m'.maxSteps := by omega
    obtain ⟨hfirst, hagain⟩ := ht.of_twins htwins hfits
    have hcount := hfirst.stepCount_eq
    have hmax := hfirst.maxSteps_eq
    have hrest := executes_of_return (j := j - i) hround hk hback hagain (by omega)
    exact hfirst.after_of_le (Nat.le_of_not_le hle) hrest

/-- A run that comes back to a configuration does not halt, whatever its budget. -/
theorem run_of_return {i : Nat} (ht : Executes i m t) (hu : Executes k m u) (hik : i < k)
    (hback : t.state.SameConfiguration u.state) (n : Nat) :
    (m.withMaxSteps n).run.1 = .ok true := by
  have hrunning : m.halted = false := by
    cases hu with
    | refl => omega
    | step hstep => exact (counts_of_step hstep).1
  have hround : Executes (k - i) t u := by
    apply Executes.drop _ ht
    rw [Nat.add_sub_of_le (Nat.le_of_lt hik)]
    exact hu
  have htwins : Twins m (m.withMaxSteps n) := ⟨rfl, hrunning, hrunning, rfl, rfl, rfl, rfl⟩
  by_cases hspent : n ≤ m.state.stepCount
  · have hnone : Executes 0 (m.withMaxSteps n) (m.withMaxSteps n) := .refl
    rw [hnone.run_of_spent hrunning hspent]
  · have hall := ht.of_return (j := n - m.state.stepCount) hround (by omega) hback htwins
      (show m.state.stepCount + _ ≤ n by omega)
    have hcount : _ = m.state.stepCount + _ := hall.stepCount_eq
    have hmax : _ = n := hall.maxSteps_eq
    rw [hall.run_of_spent (hall.running hrunning) (by omega)]

/-- Two machines in the same configuration take the same steps, as long as their budgets allow for
them, whatever they have put out and executed before. Hence a run, from a fresh start or from anywhere
else, that comes back to a configuration stops at its budget and not before, be it large or small. -/
theorem only_the_configuration_matters :
    (∀ (m m' : Machine) (j : Nat), Twins m m' → m.state.stepCount + j ≤ m.maxSteps →
      m'.state.stepCount + j ≤ m'.maxSteps → StepAlike j m m') ∧
    ∀ (m t u : Machine) (i k : Nat), Executes i m t → Executes k m u → i < k →
      t.state.SameConfiguration u.state → ∀ n, (m.withMaxSteps n).run.1 = .ok true := by
  constructor
  · intro m m' j h hj hj'
    exact h.stepAlike hj hj'
  · intro m t u i k ht hu hik hback n
    exact run_of_return ht hu hik hback n

/-- Zeros are put out for ever once the only item is read. The second time round, the machine does the
same under a larger budget and behind a longer outbox. -/
theorem zeros_for_ever :
    let p : Program := { instructions := [⟨0, .inbox, none⟩, ⟨1, .copyFrom 0, some "zero"⟩,
      ⟨2, .outbox, none⟩, ⟨3, .jump "zero", none⟩] }
    let m := after 2 (fresh p 7 [4])
    let m' := after 5 (fresh p 12 [4])
    (m.state.outbox = [] ∧ m'.state.outbox = [0] ∧ StepAlike 5 m m') ∧
      (fresh p 1000000 [4]).run.1 = .ok true := by
  intro p m m'
  obtain ⟨hsteps, hruns⟩ := only_the_configuration_matters
  constructor
  · have hout : m.state.outbox = [] ∧ m'.state.outbox = [0] := by decide +kernel
    have hsame : m.state.SameConfiguration m'.state := by constructor <;> decide +kernel
    have htwins : Twins m m' := by
      refine ⟨?_, ?_, ?_, hsame⟩ <;> decide +kernel
    have hm : m.state.stepCount + 5 ≤ m.maxSteps := by decide +kernel
    have hm' : m'.state.stepCount + 5 ≤ m'.maxSteps := by decide +kernel
    exact ⟨hout.1, hout.2, hsteps m m' 5 htwins hm hm'⟩
  · have hanswers : ∀ a ∈ answers 5 (fresh p 7 [4]), a = .ok true := by decide +kernel
    have hfive := executes_of_answers hanswers
    have htwo : Executes 2 (fresh p 7 [4]) m := hfive.take (by decide)
    have hback : m.state.SameConfiguration (after 5 (fresh p 7 [4])).state := by
      constructor <;> decide +kernel
    exact hruns (fresh p 7 [4]) m _ 2 5 htwo hfive (by decide) hback 1000000

end Machine

end BlockMachine
