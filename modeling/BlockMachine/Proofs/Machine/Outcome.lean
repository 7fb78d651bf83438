import BlockMachine.Proofs.Machine.Steps

namespace BlockMachine.Machine

inductive Ending where
  | outOfBudget | alreadyHalted | finished | overflowed
  deriving DecidableEq, Repr

/-- What each of them says of the machine before the run, of the answer, and of the machine after
the run. A run that halts a machine finds it running. -/
def Ending.Describes (m : Machine) (a : Except Overflow Bool) (t : Machine) : Ending → Prop
  | outOfBudget => a = .ok true ∧ t.halted = false ∧ t.maxSteps ≤ t.state.stepCount
  | alreadyHalted => a = .ok false ∧ m.halted = true ∧ t = m
  | finished => a = .ok false ∧ m.halted = false ∧
      (t.state.halt = some .inboxEmpty ∧ t.state.inbox = [] ∧ t.current?.map (·.op) = some .inbox ∨
        t.state.halt = some .endOfProgram ∧ t.program.size ≤ t.state.pc)
  | overflowed => ∃ e op, a = .error e ∧ t.state.halt = some .fault ∧
      t.current?.map (·.op) = some op ∧ t.state.Overflows op e

def Ending.ofAnswer (m : Machine) : Except Overflow Bool → Ending
  | .ok true => outOfBudget
  | .ok false => if m.halted then alreadyHalted else finished
  | .error _ => overflowed

/-- No two endings describe the same run. -/
theorem Ending.eq_ofAnswer {m t : Machine} {a : Except Overflow Bool} {c : Ending}
    (h : c.Describes m a t) : c = ofAnswer m a := by
  cases c with
  | outOfBudget =>
    obtain ⟨rfl, -⟩ := h
    rfl
  | alreadyHalted =>
    obtain ⟨rfl, hm, -⟩ := h
    simp [ofAnswer, hm]
  | finished =>
    obtain ⟨rfl, hm, -⟩ := h
    simp [ofAnswer, hm]
  | overflowed =>
    obtain ⟨e, op, rfl, -⟩ := h
    rfl

theorem overflows_haltWith {m : Machine} {op : Op} {e : Overflow} (h : m.state.Overflows op e)
    (r : Halt) : (m.haltWith r).state.Overflows op e := by
  cases h with
  | add hv hout => exact .add hv hout
  | sub hv hout => exact .sub hv hout

/-- A step that halts a machine leaves in it the reason for the halt. -/
theorem describes_step {m t : Machine} (hm : m.halted = false) (ht : t.halted = false)
    (hbelow : t.state.stepCount < t.maxSteps) (hend : t.step.1 ≠ .ok true) :
    ∃ c : Ending, c.Describes m t.step.1 t.step.2 := by
  have hcase := t.stepCase
  rcases hstep : t.step with ⟨a, u⟩
  rw [hstep] at hcase hend
  cases hcase with
  | halted hh => simp [hh] at ht
  | spent _ hspent => omega
  | ended _ _ hc =>
    have hpast : t.program.size ≤ t.state.pc := List.getElem?_eq_none_iff.mp hc
    exact ⟨.finished, rfl, hm, .inr ⟨rfl, hpast⟩⟩
  | @starved i hi hs =>
    obtain ⟨hop, hinbox⟩ := State.perform_eq_starved_iff.mp hs
    have hcurrent : (t.haltWith .inboxEmpty).current?.map (·.op) = some .inbox := by
      change t.current?.map (·.op) = some .inbox
      rw [hi.current, Option.map_some, hop]
    exact ⟨.finished, rfl, hm, .inl ⟨rfl, hinbox, hcurrent⟩⟩
  | @faulted i e hi hs =>
    have hcurrent : (t.haltWith .fault).current?.map (·.op) = some i.op := by
      change t.current?.map (·.op) = some i.op
      rw [hi.current, Option.map_some]
    have hover := State.perform_eq_overflow_iff.mp hs
    exact ⟨.overflowed, e, i.op, rfl, rfl, hcurrent, overflows_haltWith hover .fault⟩
  | executed => exact absurd rfl hend

/-- What a run that finds the machine running comes to, seen from the last instruction that it
executes. -/
theorem exists_run_end {m : Machine} (hm : m.halted = false) : ∃ k t, Executes k m t ∧
    (m.run.2 = t ∨ t.step.1 ≠ .ok true ∧ m.run = t.step) ∧
    (∃ c : Ending, c.Describes m m.run.1 m.run.2) ∧ m.run.2.state.halt ≠ some .stepBudget := by
  obtain ⟨k, t, hk, ht, hend, hrun⟩ := (ran_run m).executes hm
  refine ⟨k, t, hk, ?_⟩
  rcases hrun with ⟨hrun, hbelow⟩ | ⟨hrun, hspent⟩
  · -- the budget allows for the step that ends the run
    obtain ⟨r, hr, hspent⟩ := haltWith_of_step ht (Prod.eta t.step).symm hend
    have hcause : r ≠ .stepBudget := by
      intro hr
      have := hspent.mp hr
      omega
    rw [hrun]
    refine ⟨.inr ⟨hend, rfl⟩, describes_step hm ht hbelow hend, ?_⟩
    rw [hr]
    exact fun h => hcause (Option.some.inj h)
  · have hnone : t.state.halt ≠ some .stepBudget := by
      intro h
      simp [halted, State.halted, h] at ht
    rw [hrun]
    exact ⟨.inl rfl, ⟨.outOfBudget, rfl, ht, hspent⟩, hnone⟩

/-- Every run ends, after no more instructions than the budget has left, each executed by one
step, and at most one further step, which executes none. In exactly one of four ways: out of
budget with the machine running, with a machine that was halted before and is left as it was, with
a halt that is due to the inbox or to the end of the program, or with an overflow. No run halts a
machine for want of budget. -/
theorem run_ends_in_one_way (m : Machine) :
    Ran m m.run ∧
    (∃ k t, Executes k m t ∧ k ≤ m.maxSteps - m.state.stepCount ∧ (m.halted = true → k = 0) ∧
      (m.run.2 = t ∨ t.step.1 ≠ .ok true ∧ m.run = t.step)) ∧
    (∃! c : Ending, c.Describes m m.run.1 m.run.2) ∧
    (m.run.2.state.halt = some .stepBudget → m.run = (.ok false, m)) := by
  have hunique (c c' : Ending) (h : c.Describes m m.run.1 m.run.2)
      (h' : c'.Describes m m.run.1 m.run.2) : c' = c := by
    rw [Ending.eq_ofAnswer h, Ending.eq_ofAnswer h']
  refine ⟨ran_run m, ?_⟩
  by_cases hm : m.halted = true
  · have hrun : m.run = (.ok false, m) := runFor_of_halted hm _
    have halready : Ending.alreadyHalted.Describes m m.run.1 m.run.2 := by
      rw [hrun]
      exact ⟨rfl, hm, rfl⟩
    refine ⟨⟨0, m, .refl, Nat.zero_le _, fun _ => rfl, .inl ?_⟩, ?_, fun _ => hrun⟩
    · rw [hrun]
    · exact ⟨_, halready, fun c' h => hunique _ c' halready h⟩
  · have hrunning : m.halted = false := Bool.eq_false_iff.mpr hm
    obtain ⟨k, t, hk, hends, ⟨c, hc⟩, hspent⟩ := exists_run_end hrunning
    refine ⟨⟨k, t, hk, ?_, fun h => absurd h hm, hends⟩, ?_, fun h => absurd h hspent⟩
    · exact hk.le_left
    · exact ⟨c, hc, fun c' h => hunique c c' hc h⟩

end BlockMachine.Machine
