import BlockMachine.Proofs.Machine.Calls

namespace BlockMachine

namespace State

structure Extends (s t : State) : Prop where
  outbox : s.outbox <+: t.outbox
  inbox : t.inbox <:+ s.inbox
  written : ∀ c, s.memory.written? c ≠ none → t.memory.written? c ≠ none

variable {p : Program} {s t u : State} {op : Op} {is : List Instruction}

theorem Extends.refl (s : State) : s.Extends s where
  outbox := List.prefix_refl _
  inbox := List.suffix_refl _
  written _ hc := hc

theorem Extends.trans (h : s.Extends t) (ht : t.Extends u) : s.Extends u where
  outbox := h.outbox.trans ht.outbox
  inbox := ht.inbox.trans h.inbox
  written c hc := ht.written c (h.written c hc)

/-- No operation takes anything out of the outbox, puts anything into the inbox or unwrites a cell.
-/
theorem extends_perform (h : s.perform p op = .ok t) : s.Extends t := by
  have houtbox : s.outbox <+: t.outbox := List.reverse_prefix.mpr (follows_perform h).sent
  refine ⟨houtbox, ?_, ?_⟩
  · cases effect_of_perform h with
    | take hs =>
      rw [hs]
      exact List.suffix_cons _ _
    | send | store | load | add | sub | jump | skip => exact List.suffix_refl _
  · intro c hc
    cases effect_of_perform h with
    | @store d v =>
      change (s.memory.set d v).written? c ≠ none
      rw [Memory.written?_set]
      split
      · exact Option.some_ne_none v
      · exact hc
    | take | send | load | add | sub | jump | skip => exact hc

theorem Course.extends (h : Course s is t) : s.Extends t := by
  induction h with
  | refl => exact .refl _
  | @halt s r _ =>
    have hsame := Extends.refl s
    exact ⟨hsame.outbox, hsame.inbox, hsame.written⟩
  | execute _ hs _ ih => exact (extends_perform hs).trans ih

end State

/-- A puzzle whose output does not begin like this one is not solved by anything added to it. -/
theorem Puzzle.isSolvedBy_eq_false {q : Puzzle} {out later : List Int}
    (h : ¬ out <+: q.expectedOutbox) (hlater : out <+: later) : q.isSolvedBy later = false := by
  apply Bool.eq_false_iff.mpr
  intro hsolved
  have heq : q.expectedOutbox = later := eq_of_beq hsolved
  exact h (heq ▸ hlater)

namespace Machine

/-- Whatever is asked of a machine, short of a fresh start: its outbox is only added to, its inbox
only taken from, a written cell stays written, and every instruction that is executed counts as one
step. Once halted it stays as it is, with any program and any budget. An outbox that has gone wrong
is wrong for good. -/
theorem calls_only_append {calls : List Call} (h : ∀ c ∈ calls, c.goesOn = true) (m : Machine) :
    let t := m.afterCalls calls
    m.state.outbox <+: t.state.outbox ∧
    t.state.inbox <:+ m.state.inbox ∧
    (∀ c, m.state.memory.written? c ≠ none → t.state.memory.written? c ≠ none) ∧
    t.state.stepCount = m.state.stepCount + (m.executed calls).length ∧
    (m.halted = true → t.state = m.state) ∧
    ∀ q : Puzzle, ¬ m.state.outbox <+: q.expectedOutbox → q.isSolvedBy t.state.outbox = false := by
  intro t
  have hcourse : m.state.Course (m.executed calls) t.state := course_afterCalls h m
  have hextends := hcourse.extends
  refine ⟨hextends.outbox, hextends.inbox, hextends.written, hcourse.stepCount_eq, ?_, ?_⟩
  · exact hcourse.eq_of_halted
  · intro q hq
    exact Puzzle.isSolvedBy_eq_false hq hextends.outbox

/-- Two items are asked for, with a budget of two steps for the first of them. When the budget has
halted the machine, neither a larger one nor a shorter program lets it go on. -/
theorem spent_machine_is_not_revived :
    let p : Program := { instructions := [⟨0, .inbox, none⟩, ⟨1, .outbox, none⟩, ⟨2, .inbox, none⟩] }
    let m := after 3 (fresh p 2 [7, 8])
    let calls : List Call := [.limit 9, .step, .install [⟨4, .outbox, none⟩], .run]
    m.state.halt = some .stepBudget ∧ (m.afterCalls calls).state = m.state ∧
      Puzzle.isSolvedBy { expectedOutbox := [8] } (m.afterCalls calls).state.outbox = false := by
  intro p m calls
  have hhalt : m.state.halt = some .stepBudget := by decide
  have hhalted : m.halted = true := by decide
  have hwrong : ¬ m.state.outbox <+: [8] := by decide
  have hgoesOn : ∀ c ∈ calls, c.goesOn = true := by decide
  obtain ⟨-, -, -, -, hsame, hunsolved⟩ := calls_only_append hgoesOn m
  exact ⟨hhalt, hsame hhalted, hunsolved _ hwrong⟩

end Machine

end BlockMachine
