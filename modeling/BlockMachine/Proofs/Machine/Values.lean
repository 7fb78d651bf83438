import BlockMachine.Proofs.Machine.Calls

namespace BlockMachine

/-- True of 0, and of each sum and difference that the machine can hold, if it is true of both
operands. -/
structure KeptByArithmetic (P : Int → Prop) : Prop where
  zero : P 0
  add : ∀ a b, P a → P b → InRange (a + b) → P (a + b)
  sub : ∀ a b, P a → P b → InRange (a - b) → P (a - b)

/-- Sums and differences of multiples are multiples. -/
theorem keptByArithmetic_dvd (d : Int) : KeptByArithmetic (d ∣ ·) where
  zero := Int.dvd_zero d
  add _ _ ha hb _ := Int.dvd_add ha hb
  sub _ _ ha hb _ := Int.dvd_sub ha hb

namespace State

structure AllValues (P : Int → Prop) (s : State) : Prop where
  accumulator : ∀ v ∈ s.accumulator, P v
  inbox : ∀ v ∈ s.inbox, P v
  sent : ∀ v ∈ s.sent, P v
  memory : ∀ c, P (s.memory.get c)

variable {P : Int → Prop} {p : Program} {s t : State}

theorem AllValues.outbox (h : s.AllValues P) : ∀ v ∈ s.outbox, P v := by
  intro v hv
  exact h.sent v (List.mem_reverse.mp hv)

/-- At the start there are no other numbers than the items of the inbox. -/
theorem allValues_start (hP : KeptByArithmetic P) {xs : List Int} (h : ∀ v ∈ xs, P v) :
    (start xs).AllValues P where
  accumulator v hv := by simp [start] at hv
  inbox := h
  sent v hv := by simp [start] at hv
  memory _ := hP.zero

theorem AllValues.arrive (h : s.AllValues P) (address : Nat) : (s.arrive address).AllValues P :=
  ⟨h.accumulator, h.inbox, h.sent, h.memory⟩

theorem AllValues.advance (h : s.AllValues P) : s.advance.AllValues P := h.arrive (s.pc + 1)

theorem AllValues.load (h : s.AllValues P) {v : Int} (hv : P v) :
    ({ s with accumulator := some v } : State).AllValues P where
  accumulator w hw := by
    obtain rfl : v = w := Option.some.inj hw
    exact hv
  inbox := h.inbox
  sent := h.sent
  memory := h.memory

theorem AllValues.store (h : s.AllValues P) (c : Nat) {v : Int} (hv : P v) :
    ({ s with memory := s.memory.set c v } : State).AllValues P where
  accumulator := h.accumulator
  inbox := h.inbox
  sent := h.sent
  memory d := by
    rw [Memory.get_set]
    split
    · exact hv
    · exact h.memory d

theorem AllValues.send (h : s.AllValues P) {v : Int} (hv : P v) : (s.send v).AllValues P where
  accumulator w hw := by simp [State.send] at hw
  inbox := h.inbox
  sent := List.forall_mem_cons.mpr ⟨hv, h.sent⟩
  memory := h.memory

/-- An operation moves numbers or calculates one, and makes up none. -/
theorem AllValues.perform (hP : KeptByArithmetic P) (h : s.AllValues P) {op : Op}
    (ht : s.perform p op = .ok t) : t.AllValues P := by
  cases effect_of_perform ht with
  | take hs =>
    obtain ⟨hv, hrest⟩ := List.forall_mem_cons.mp (hs ▸ h.inbox)
    exact ⟨(h.load hv).accumulator, hrest, h.sent, h.memory⟩
  | send hs => exact (h.send (h.accumulator _ hs)).advance
  | store hs => exact (h.store _ (h.accumulator _ hs)).advance
  | load => exact (h.load (h.memory _)).advance
  | add hs hin =>
    have hsum := hP.add _ _ (h.accumulator _ hs) (h.memory _) hin
    exact (h.load hsum).advance
  | sub hs hin =>
    have hdifference := hP.sub _ _ (h.accumulator _ hs) (h.memory _) hin
    exact (h.load hdifference).advance
  | jump => exact h.arrive _
  | skip => exact h.advance

/-- What is so of every number in a state stays so, whatever is executed. -/
theorem Course.allValues (hP : KeptByArithmetic P) {is : List Instruction} (h : Course s is t)
    (hs : s.AllValues P) : t.AllValues P := by
  induction h with
  | refl => exact hs
  | halt => exact ⟨hs.accumulator, hs.inbox, hs.sent, hs.memory⟩
  | execute _ hperform _ ih => exact ih (hs.perform hP hperform)

end State

namespace Machine

variable {P : Int → Prop}

theorem allValues_step (hP : KeptByArithmetic P) {m : Machine} (h : m.state.AllValues P) :
    m.step.2.state.AllValues P := by
  have hcourse : m.state.Course _ m.step.2.state := course_call (c := .step) rfl m
  exact hcourse.allValues hP h

/-- What is so of every item of the inbox and kept by arithmetic is so of all that a run puts
out, whatever the program and the budget. -/
theorem outbox_of_run (hP : KeptByArithmetic P) {m : Machine} (h : m.state.AllValues P) :
    ∀ v ∈ m.run.2.state.outbox, P v :=
  ((course_runFor _ m).allValues hP h).outbox

end Machine

end BlockMachine
