import BlockMachine.Proofs.Machine.Steps

namespace BlockMachine.State

def relocate (s : State) (address count : Nat) : State :=
  { s with pc := address, stepCount := count }

theorem taken?_relocate (s : State) (a n : Nat) (op : Op) :
    (s.relocate a n).taken? op = s.taken? op := by
  cases op <;> rfl

theorem skips_relocate (s : State) (a n : Nat) (op : Op) :
    (s.relocate a n).Skips op ↔ s.Skips op := by
  cases op <;> rfl

/-- The same operation elsewhere, perhaps in another program, has the same effect; only where it
leads to is told by the labels there. -/
theorem Effect.relocate {p q : Program} {s t : State} {op : Op} (h : s.Effect p op t) (a n : Nat) :
    (s.relocate a n).Effect q op
      (t.relocate ((s.relocate a n).nextAddress q op) (n + 1)) := by
  cases h with
  | take hs => exact .take hs
  | send hs => exact .send hs
  | store hs => exact .store hs
  | load => exact .load
  | add hs hin => exact .add hs hin
  | sub hs hin => exact .sub hs hin
  | @jump op l hs =>
    have htaken : (s.relocate a n).taken? op = some l := (s.taken?_relocate a n op).trans hs
    rw [nextAddress, htaken]
    exact .jump htaken
  | @skip op hs =>
    have hskips : (s.relocate a n).Skips op := (s.skips_relocate a n op).mpr hs
    have hpc := pc_of_perform (perform_of_effect (p := q) (.skip hskips))
    rw [← hpc]
    exact .skip hskips

/-- An operation that fails does so everywhere, for the same reason but for the address. -/
theorem perform_relocate (p q : Program) (s : State) (op : Op) (a n : Nat) :
    (s.relocate a n).perform q op =
      match s.perform p op with
      | .ok t => .ok (t.relocate ((s.relocate a n).nextAddress q op) (n + 1))
      | .error .inboxEmpty => .error .inboxEmpty
      | .error (.overflow e) => .error (.overflow { e with pc := a }) := by
  rcases hs : s.perform p op with (_ | e) | t
  · obtain ⟨hop, hinbox⟩ := perform_eq_starved_iff.mp hs
    exact perform_eq_starved_iff.mpr ⟨hop, hinbox⟩
  · refine perform_eq_overflow_iff.mpr ?_
    cases perform_eq_overflow_iff.mp hs with
    | add hv hout => exact .add hv hout
    | sub hv hout => exact .sub hv hout
  · exact perform_of_effect ((effect_of_perform hs).relocate a n)

end BlockMachine.State
