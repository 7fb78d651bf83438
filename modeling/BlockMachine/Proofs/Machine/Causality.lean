import BlockMachine.Proofs.Machine.AppendOnly

namespace BlockMachine

def State.feed (s : State) (ys : List Int) : State := { s with inbox := s.inbox ++ ys }

/-- Only an empty inbox can tell what was added to it. -/
theorem State.perform_feed {p : Program} {s : State} {op : Op}
    (h : s.perform p op ≠ .error .inboxEmpty) (ys : List Int) :
    (s.feed ys).perform p op = (s.perform p op).map (·.feed ys) := by
  obtain ⟨pc, count, halt, acc, inbox, sent, mem⟩ := s
  cases op with
  | inbox =>
    cases inbox with
    | nil => exact absurd rfl h
    | cons v rest => rfl
  | outbox | copyTo c => cases acc <;> rfl
  | add c | sub c =>
    cases acc with
    | none => rfl
    | some v => exact calculate_map (feed · ys) rfl (fun _ => rfl) _ _ _ _
  | copyFrom | jump | unconfigured => rfl
  | jumpIfZero | jumpIfNegative =>
    simp only [perform, Except.map, apply_ite (feed · ys)]
    rfl

namespace Machine

def feed (m : Machine) (ys : List Int) : Machine :=
  { m with initialInbox := m.initialInbox ++ ys, state := m.state.feed ys }

theorem fresh_append (p : Program) (n : Nat) (xs ys : List Int) :
    fresh p n (xs ++ ys) = (fresh p n xs).feed ys := rfl

/-- A step that does not end for want of an item is the same with more items in the inbox. -/
theorem step_feed {m : Machine} (h : m.step.2.state.halt ≠ some .inboxEmpty) (ys : List Int) :
    (m.feed ys).step = (m.step.1, m.step.2.feed ys) := by
  have htracks : Tracks (feed · ys) (·.feed ys) m := by
    refine ⟨fun _ => rfl, fun _ => rfl, rfl, Iff.rfl, fun _ _ hc => hc, ?_⟩
    intro i hi
    refine ⟨i, hi.current, State.perform_feed ?_ ys⟩
    intro hstarved
    rw [step_of_case (.starved hi hstarved)] at h
    exact h rfl
  exact htracks.step

/-- A machine that a step finds without an item had none left, and is left as it was, but
halted. -/
theorem starved_of_step {m : Machine} (hm : m.state.halt ≠ some .inboxEmpty)
    (h : m.step.2.state.halt = some .inboxEmpty) :
    m.step = (.ok false, m.haltWith .inboxEmpty) ∧ m.state.halt = none ∧ m.state.inbox = [] := by
  have hcase := m.stepCase
  rcases hstep : m.step with ⟨a, t⟩
  rw [hstep] at hcase h
  cases hcase with
  | halted => exact absurd h hm
  | spent | ended | faulted => simp [haltWith] at h
  | @starved i hi hs =>
    have hrunning := hi.running
    obtain ⟨-, hinbox⟩ := State.perform_eq_starved_iff.mp hs
    exact ⟨rfl, by simpa [halted, State.halted] using hrunning, hinbox⟩
  | @executed i s hi hs =>
    have hhalt := (State.follows_perform hs).halt
    exact absurd (hhalt.symm.trans h) hm

/-- Step by step, the machines differ in nothing but the items added, as long as the one with
fewer of them is not halted for want of one. -/
theorem after_feed {m : Machine} {j : Nat} (h : (after j m).state.halt ≠ some .inboxEmpty)
    (ys : List Int) :
    answers j (m.feed ys) = answers j m ∧ after j (m.feed ys) = (after j m).feed ys :=
  after_image (F := (feed · ys)) (P := fun _ => True) (fun _ _ => trivial)
    (fun _ _ hstep => step_feed hstep ys) trivial h

theorem outbox_runFor_feed (n : Nat) (m : Machine) (ys : List Int) :
    (runFor n m).2.state.outbox <+: (runFor n (m.feed ys)).2.state.outbox := by
  induction n generalizing m with
  | zero => exact List.prefix_refl _
  | succ n ih =>
    by_cases hm : m.state.halt = some .inboxEmpty
    · -- both are halted from the start
      have hhalted : m.halted = true := by simp [halted, State.halted, hm]
      have hfeed : (m.feed ys).halted = true := hhalted
      rw [runFor_of_halted hhalted, runFor_of_halted hfeed]
      exact List.prefix_refl _
    · by_cases hstarved : m.step.2.state.halt = some .inboxEmpty
      · -- one stops here, the other only adds to what both have put out
        have hstep := (starved_of_step hm hstarved).1
        rw [runFor_succ_of_stop hstep (by simp)]
        exact (course_runFor (n + 1) (m.feed ys)).extends.outbox
      · -- both take the same step
        have hfeed := step_feed hstarved ys
        rcases hstep : m.step with ⟨a, next⟩
        rw [hstep] at hfeed
        by_cases ha : a = .ok true
        · subst ha
          rw [runFor_succ_of_step hstep, runFor_succ_of_step hfeed]
          exact ih next
        · rw [runFor_succ_of_stop hstep ha, runFor_succ_of_stop hfeed ha]
          exact List.prefix_refl _

/-- A machine whose inbox is longer does the same until the shorter inbox is exhausted: it gives
the same answers and is in the same state, but for the items added. When the machine with fewer
items halts for want of one, the other stands before that step in the same state, not halted. What
the one puts out in a run is therefore the beginning of what the other does. -/
theorem inbox_is_read_causally (p : Program) (n : Nat) (xs ys : List Int) :
    let a := fresh p n xs
    let b := fresh p n (xs ++ ys)
    (∀ j, (after j a).state.halt ≠ some .inboxEmpty →
      answers j b = answers j a ∧ (after j b).state = (after j a).state.feed ys) ∧
    (∀ j, (after j a).state.halt ≠ some .inboxEmpty →
      (after (j + 1) a).state.halt = some .inboxEmpty →
      answers j b = answers j a ∧ (after (j + 1) a).state.inbox = [] ∧
        (after j b).state = State.feed { (after (j + 1) a).state with halt := none } ys) ∧
    a.run.2.state.outbox <+: b.run.2.state.outbox := by
  intro a b
  have hb : b = a.feed ys := fresh_append p n xs ys
  have hsame (j : Nat) (h : (after j a).state.halt ≠ some .inboxEmpty) :
      answers j b = answers j a ∧ (after j b).state = (after j a).state.feed ys := by
    obtain ⟨hanswers, hafter⟩ := after_feed h ys
    rw [hb]
    exact ⟨hanswers, congrArg Machine.state hafter⟩
  refine ⟨hsame, ?_, ?_⟩
  · intro j h hstarved
    obtain ⟨hanswers, hstate⟩ := hsame j h
    rw [after_succ] at hstarved
    obtain ⟨hstep, hrunning, hinbox⟩ := starved_of_step h hstarved
    have hundo : { (after (j + 1) a).state with halt := none } = (after j a).state := by
      rw [after_succ, hstep, ← hrunning]
      rfl
    refine ⟨hanswers, ?_, ?_⟩
    · rw [after_succ, hstep]
      exact hinbox
    · rw [hundo]
      exact hstate
  · rw [hb]
    exact outbox_runFor_feed n a ys

/-- The second item is asked for and missing: the machine that has it is, before it takes it,
where the other one halts. -/
theorem missing_second_item :
    let p : Program := { instructions := [⟨0, .inbox, none⟩, ⟨1, .inbox, none⟩] }
    (after 1 (fresh p 5 [7])).state.halt ≠ some .inboxEmpty ∧
      (after 2 (fresh p 5 [7])).state.halt = some .inboxEmpty ∧
      (after 1 (fresh p 5 [7, 8])).state =
        State.feed { (after 2 (fresh p 5 [7])).state with halt := none } [8] := by
  intro p
  have hone : (after 1 (fresh p 5 [7])).state.halt ≠ some .inboxEmpty := by decide
  have htwo : (after 2 (fresh p 5 [7])).state.halt = some .inboxEmpty := by decide
  have hboth := (inbox_is_read_causally p 5 [7] [8]).2.1 1 hone htwo
  exact ⟨hone, htwo, hboth.2.2⟩

end Machine

end BlockMachine
