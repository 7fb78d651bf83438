import Mathlib.Data.List.Basic
import BlockMachine.Machine.Run

/-! Steps one after the other. What a step can be is said once, and a run is taken apart into
the instructions that it executes and the step or the check that ends it. -/
namespace BlockMachine

namespace State

def taken? (s : State) : Op → Option Label
  | .jump l => some l
  | .jumpIfZero l => if s.accumulator = some 0 then some l else none
  | .jumpIfNegative l => if s.accumulator.any (· < 0) then some l else none
  | _ => none

def Skips (s : State) : Op → Prop
  | .outbox | .copyTo _ | .add _ | .sub _ => s.accumulator = none
  | .jumpIfZero l => s.taken? (.jumpIfZero l) = none
  | .jumpIfNegative l => s.taken? (.jumpIfNegative l) = none
  | .unconfigured _ => True
  | .inbox | .copyFrom _ | .jump _ => False

inductive Effect (p : Program) (s : State) : Op → State → Prop
  | take {v rest} : s.inbox = v :: rest →
      Effect p s .inbox { s with accumulator := some v, inbox := rest }.advance
  | send {v} : s.accumulator = some v → Effect p s .outbox (s.send v).advance
  | store {c v} : s.accumulator = some v →
      Effect p s (.copyTo c) { s with memory := s.memory.set c v }.advance
  | load {c} : Effect p s (.copyFrom c) { s with accumulator := some (s.memory.get c) }.advance
  | add {c v} : s.accumulator = some v → InRange (v + s.memory.get c) →
      Effect p s (.add c) { s with accumulator := some (v + s.memory.get c) }.advance
  | sub {c v} : s.accumulator = some v → InRange (v - s.memory.get c) →
      Effect p s (.sub c) { s with accumulator := some (v - s.memory.get c) }.advance
  | jump {op l} : s.taken? op = some l → Effect p s op (s.jump p l)
  | skip {op} : s.Skips op → Effect p s op s.advance

theorem calculate_eq_ok_iff {s t : State} {o : Opcode} {x y v : Int} :
    s.calculate o x y v = .ok t ↔
      InRange v ∧ t = { s with accumulator := some v }.advance := by
  rw [calculate]
  split
  · next hv => simp [hv, eq_comm]
  · next hv => simp [hv]

/-- A change of the state that leaves the pointer where it is, and that can be made before the
accumulator is written as well as after it, makes no difference to a calculation. -/
theorem calculate_map (g : State → State) {s : State} (hpc : (g s).pc = s.pc)
    (hg : ∀ v, { g s with accumulator := some v }.advance =
      g { s with accumulator := some v }.advance) (o : Opcode) (x y v : Int) :
    (g s).calculate o x y v = (s.calculate o x y v).map g := by
  rw [calculate, calculate]
  split
  · exact congrArg Except.ok (hg v)
  · rw [hpc]
    rfl

theorem effect_of_perform {p : Program} {s t : State} {op : Op} (h : s.perform p op = .ok t) :
    s.Effect p op t := by
  cases op with
  | inbox =>
    rw [perform] at h
    split at h
    · cases h
    · next hs =>
      cases h
      exact .take hs
  | outbox =>
    rw [perform] at h
    split at h <;> cases h
    · next hs => exact .skip hs
    · next hs => exact .send hs
  | copyTo c =>
    rw [perform] at h
    split at h <;> cases h
    · next hs => exact .skip hs
    · next hs => exact .store hs
  | copyFrom c =>
    cases h
    exact .load
  | add c =>
    rw [perform] at h
    split at h
    · next hs =>
      cases h
      exact .skip hs
    · next hs =>
      obtain ⟨hin, rfl⟩ := calculate_eq_ok_iff.mp h
      exact .add hs hin
  | sub c =>
    rw [perform] at h
    split at h
    · next hs =>
      cases h
      exact .skip hs
    · next hs =>
      obtain ⟨hin, rfl⟩ := calculate_eq_ok_iff.mp h
      exact .sub hs hin
  | jump l =>
    cases h
    exact .jump rfl
  | jumpIfZero l | jumpIfNegative l =>
    rw [perform] at h
    split at h <;> cases h
    · next hs => exact .jump (if_pos hs)
    · next hs => exact .skip (if_neg hs)
  | unconfigured o =>
    cases h
    exact .skip trivial

/-- Each of the effects comes about, so that there is no more and no less to an operation. -/
theorem perform_of_effect {p : Program} {s t : State} {op : Op} (h : s.Effect p op t) :
    s.perform p op = .ok t := by
  cases h with
  | take hs | send hs | store hs => simp only [perform, hs]
  | load => rfl
  | add hs hin | sub hs hin =>
    simp only [perform, hs]
    exact calculate_eq_ok_iff.mpr ⟨hin, rfl⟩
  | @jump op l hs =>
    cases op with
    | jump =>
      cases hs
      rfl
    | jumpIfZero | jumpIfNegative =>
      rw [taken?] at hs
      split at hs <;> cases hs
      next htaken => exact congrArg Except.ok (if_pos htaken)
    | _ => cases hs
  | @skip op hs =>
    cases op with
    | outbox | copyTo | add | sub => simp only [perform, show s.accumulator = none from hs]
    | jumpIfZero | jumpIfNegative =>
      rw [Skips, taken?] at hs
      split at hs <;> cases hs
      next htaken => exact congrArg Except.ok (if_neg htaken)
    | unconfigured => rfl
    | inbox | copyFrom | jump => exact hs.elim

structure Follows (s t : State) : Prop where
  count : t.stepCount = s.stepCount + 1
  halt : t.halt = s.halt
  sent : s.sent <:+ t.sent

theorem follows_perform {p : Program} {s t : State} {op : Op} (h : s.perform p op = .ok t) :
    s.Follows t := by
  cases effect_of_perform h with
  | take | store | load | add | sub | jump | skip => exact ⟨rfl, rfl, List.suffix_refl s.sent⟩
  | send => exact ⟨rfl, rfl, List.suffix_cons _ s.sent⟩

def nextAddress (s : State) (p : Program) (op : Op) : Nat :=
  ((s.taken? op).bind p.resolve).getD (s.pc + 1)

/-- After an operation the pointer is at the next address, or where a jump leads. -/
theorem pc_of_perform {p : Program} {s t : State} {op : Op} (h : s.perform p op = .ok t) :
    t.pc = s.nextAddress p op := by
  cases effect_of_perform h with
  | take | send | store | load | add | sub => rfl
  | jump hs => rw [nextAddress, hs]; rfl
  | skip hs =>
    have hnone : s.taken? op = none := by
      cases op with
      | jumpIfZero | jumpIfNegative => exact hs
      | jump => exact hs.elim
      | _ => rfl
    rw [nextAddress, hnone]
    rfl

/-- Only the operation that takes an item can want for one. -/
theorem perform_eq_starved_iff {p : Program} {s : State} {op : Op} :
    s.perform p op = .error .inboxEmpty ↔ op = .inbox ∧ s.inbox = [] := by
  constructor
  · intro h
    cases op with
    | inbox =>
      rw [perform] at h
      split at h
      · next hs => exact ⟨rfl, hs⟩
      · cases h
    | outbox | copyTo c =>
      rw [perform] at h
      split at h <;> cases h
    | add c | sub c =>
      rw [perform] at h
      split at h
      · cases h
      · rw [calculate] at h
        split at h <;> cases h
    | copyFrom | jump | unconfigured | jumpIfZero | jumpIfNegative => cases h
  · rintro ⟨rfl, hs⟩
    rw [perform, hs]

inductive Overflows (s : State) : Op → Overflow → Prop
  | add {c v} : s.accumulator = some v → ¬ InRange (v + s.memory.get c) →
      Overflows s (.add c) ⟨.add, s.pc, v, s.memory.get c⟩
  | sub {c v} : s.accumulator = some v → ¬ InRange (v - s.memory.get c) →
      Overflows s (.sub c) ⟨.sub, s.pc, v, s.memory.get c⟩

theorem calculate_eq_overflow_iff {s : State} {o : Opcode} {x y v : Int} {e : Overflow} :
    s.calculate o x y v = .error (.overflow e) ↔ ¬ InRange v ∧ e = ⟨o, s.pc, x, y⟩ := by
  rw [calculate]
  split
  · next hv => simp [hv]
  · next hv => simp [hv, eq_comm]

/-- An operation fails just where it asks for a number that cannot be held. -/
theorem perform_eq_overflow_iff {p : Program} {s : State} {op : Op} {e : Overflow} :
    s.perform p op = .error (.overflow e) ↔ s.Overflows op e := by
  constructor
  · intro h
    cases op with
    | add c =>
      rw [perform] at h
      split at h
      · cases h
      · next v hv =>
        obtain ⟨hout, rfl⟩ := calculate_eq_overflow_iff.mp h
        exact .add hv hout
    | sub c =>
      rw [perform] at h
      split at h
      · cases h
      · next v hv =>
        obtain ⟨hout, rfl⟩ := calculate_eq_overflow_iff.mp h
        exact .sub hv hout
    | inbox | outbox | copyTo c =>
      rw [perform] at h
      split at h <;> cases h
    | copyFrom | jump | unconfigured | jumpIfZero | jumpIfNegative => cases h
  · rintro (⟨hv, hout⟩ | ⟨hv, hout⟩)
    · rw [perform, hv]
      exact calculate_eq_overflow_iff.mpr ⟨hout, rfl⟩
    · rw [perform, hv]
      exact calculate_eq_overflow_iff.mpr ⟨hout, rfl⟩

end State

namespace Machine

def fresh (p : Program) (n : Nat) (inbox : List Int) : Machine :=
  ((ofPuzzle { initialInbox := inbox }).withMaxSteps n).withProgram p

structure Executing (m : Machine) (i : Instruction) : Prop where
  running : m.halted = false
  below : m.state.stepCount < m.maxSteps
  current : m.current? = some i

inductive StepCase (m : Machine) : Except Overflow Bool × Machine → Prop
  | halted : m.halted = true → StepCase m (.ok false, m)
  | spent : m.halted = false → m.maxSteps ≤ m.state.stepCount →
      StepCase m (.ok false, m.haltWith .stepBudget)
  | ended : m.halted = false → m.state.stepCount < m.maxSteps → m.current? = none →
      StepCase m (.ok false, m.haltWith .endOfProgram)
  | starved {i} : m.Executing i → m.state.perform m.program i.op = .error .inboxEmpty →
      StepCase m (.ok false, m.haltWith .inboxEmpty)
  | faulted {i e} : m.Executing i → m.state.perform m.program i.op = .error (.overflow e) →
      StepCase m (.error e, m.haltWith .fault)
  | executed {i s} : m.Executing i → m.state.perform m.program i.op = .ok s →
      StepCase m (.ok true, { m with state := s })

/-- Every step is one of these cases. -/
theorem stepCase (m : Machine) : StepCase m m.step := by
  rw [step]
  split
  · next hh => exact .halted hh
  · next hh =>
    have hrunning : m.halted = false := Bool.eq_false_iff.mpr hh
    split
    · next hb => exact .spent hrunning hb
    · next hb =>
      have hbelow : m.state.stepCount < m.maxSteps := Nat.lt_of_not_le hb
      split
      · next hc => exact .ended hrunning hbelow hc
      · next i hc =>
        have hi : m.Executing i := ⟨hrunning, hbelow, hc⟩
        split
        · next s hs => exact .executed hi hs
        · next hs => exact .starved hi hs
        · next e hs => exact .faulted hi hs

/-- Each of the cases settles what the step answers and what it leaves. -/
theorem step_of_case {m : Machine} {r : Except Overflow Bool × Machine} (h : StepCase m r) :
    m.step = r := by
  cases h with
  | halted hh => exact step_of_halted hh
  | spent hh hb => rw [step, if_neg (by simp [hh]), if_pos hb]
  | ended hh hb hc => rw [step, if_neg (by simp [hh]), if_neg (Nat.not_le.mpr hb), hc]
  | starved hi hs =>
    rw [step, if_neg (by simp [hi.running]), if_neg (Nat.not_le.mpr hi.below), hi.current]
    simp only [hs]
  | faulted hi hs =>
    rw [step, if_neg (by simp [hi.running]), if_neg (Nat.not_le.mpr hi.below), hi.current]
    simp only [hs]
  | executed hi hs =>
    rw [step, if_neg (by simp [hi.running]), if_neg (Nat.not_le.mpr hi.below), hi.current]
    simp only [hs]

/-- What it takes for the image of a machine to take the step that the machine takes: both can go on
or neither can, and the block that is next for the image does to its state what the block that is
next for the machine does, up to the change of states `g` that belongs to the image. -/
structure Tracks (F : Machine → Machine) (g : State → State) (m : Machine) : Prop where
  haltWith : ∀ r, (F m).haltWith r = F (m.haltWith r)
  state : ∀ s, { F m with state := g s } = F { m with state := s }
  halted : (F m).halted = m.halted
  spent : (F m).maxSteps ≤ (F m).state.stepCount ↔ m.maxSteps ≤ m.state.stepCount
  ended : m.halted = false → m.state.stepCount < m.maxSteps → m.current? = none →
    (F m).current? = none
  block : ∀ i, m.Executing i → ∃ j, (F m).current? = some j ∧
    (F m).state.perform (F m).program j.op = (m.state.perform m.program i.op).map g

/-- The image of a machine steps to the image of what the machine steps to. -/
theorem Tracks.step {F : Machine → Machine} {g : State → State} {m : Machine}
    (h : Tracks F g m) : (F m).step = (m.step.1, F m.step.2) := by
  have hrunning (hh : m.halted = false) : (F m).halted = false := h.halted.trans hh
  have hbelow (hb : m.state.stepCount < m.maxSteps) : (F m).state.stepCount < (F m).maxSteps :=
    Nat.lt_of_not_le (mt h.spent.mp (Nat.not_le.mpr hb))
  have hexecuting {i j : Instruction} (hi : m.Executing i) (hj : (F m).current? = some j) :
      (F m).Executing j := ⟨hrunning hi.running, hbelow hi.below, hj⟩
  have hcase := m.stepCase
  rcases hstep : m.step with ⟨a, t⟩
  rw [hstep] at hcase
  apply step_of_case
  cases hcase with
  | halted hh => exact .halted (h.halted.trans hh)
  | spent hh hb =>
    rw [← h.haltWith]
    exact .spent (hrunning hh) (h.spent.mpr hb)
  | ended hh hb hc =>
    rw [← h.haltWith]
    exact .ended (hrunning hh) (hbelow hb) (h.ended hh hb hc)
  | starved hi hs =>
    obtain ⟨j, hj, hperform⟩ := h.block _ hi
    rw [hs] at hperform
    rw [← h.haltWith]
    exact .starved (hexecuting hi hj) hperform
  | faulted hi hs =>
    obtain ⟨j, hj, hperform⟩ := h.block _ hi
    rw [hs] at hperform
    rw [← h.haltWith]
    exact .faulted (hexecuting hi hj) hperform
  | @executed i s hi hs =>
    obtain ⟨j, hj, hperform⟩ := h.block i hi
    rw [hs] at hperform
    have hnext : F { m with state := s } = { F m with state := g s } := (h.state s).symm
    rw [hnext]
    exact .executed (hexecuting hi hj) hperform

theorem program_of_step {m t : Machine} {a : Except Overflow Bool} (h : m.step = (a, t)) :
    t.program = m.program := by
  have hprogram := congrArg Machine.program m.step_eq_with_state
  rw [h] at hprogram
  exact hprogram

theorem maxSteps_of_step {m t : Machine} {a : Except Overflow Bool} (h : m.step = (a, t)) :
    t.maxSteps = m.maxSteps := by
  have hmax := congrArg Machine.maxSteps m.step_eq_with_state
  rw [h] at hmax
  exact hmax

/-- A step that executes an instruction finds the machine running within its budget, counts the
instruction and leaves the machine running. -/
theorem counts_of_step {m t : Machine} (h : m.step = (.ok true, t)) :
    m.halted = false ∧ m.state.stepCount < m.maxSteps ∧
      t.state.stepCount = m.state.stepCount + 1 ∧ t.halted = false := by
  have hcase := m.stepCase
  rw [h] at hcase
  cases hcase with
  | executed hi hs =>
    have hfollows := State.follows_perform hs
    have hrunning := hi.running
    refine ⟨hrunning, hi.below, hfollows.count, ?_⟩
    rw [halted, State.halted] at hrunning ⊢
    rw [hfollows.halt, hrunning]

/-- A step that executes nothing leaves a running machine as it is, but halted. -/
theorem haltWith_of_step {m t : Machine} {a : Except Overflow Bool} (hm : m.halted = false)
    (h : m.step = (a, t)) (ha : a ≠ .ok true) :
    ∃ r, t = m.haltWith r ∧ (r = .stepBudget ↔ m.maxSteps ≤ m.state.stepCount) := by
  have hcase := m.stepCase
  rw [h] at hcase
  cases hcase with
  | halted hh => simp [hh] at hm
  | spent _ hb => exact ⟨.stepBudget, rfl, by simpa using hb⟩
  | ended _ hb => exact ⟨.endOfProgram, rfl, by simpa using hb⟩
  | starved hi => exact ⟨.inboxEmpty, rfl, by simpa using hi.below⟩
  | faulted hi => exact ⟨.fault, rfl, by simpa using hi.below⟩
  | executed => exact absurd rfl ha

/-- A step after which the machine could go on has executed an instruction. -/
theorem halted_of_step {m t : Machine} {a : Except Overflow Bool} (hm : m.halted = false)
    (h : m.step = (a, t)) (ha : a ≠ .ok true) : t.halted = true := by
  obtain ⟨r, ht, -⟩ := haltWith_of_step hm h ha
  rw [ht]
  rfl

def after : Nat → Machine → Machine
  | 0, m => m
  | n + 1, m => after n m.step.2

def answers : Nat → Machine → List (Except Overflow Bool)
  | 0, _ => []
  | n + 1, m => m.step.1 :: answers n m.step.2

inductive Executes : Nat → Machine → Machine → Prop
  | refl {m} : Executes 0 m m
  | step {k m u t} : m.step = (.ok true, u) → Executes k u t → Executes (k + 1) m t

inductive Ran : Machine → Except Overflow Bool × Machine → Prop
  | done {m} : m.halted = true ∨ m.maxSteps ≤ m.state.stepCount → Ran m (.ok !m.halted, m)
  | step {m u r} : m.halted = false → m.state.stepCount < m.maxSteps → m.step = (.ok true, u) →
      Ran u r → Ran m r
  | stop {m u} : m.halted = false → m.state.stepCount < m.maxSteps → m.step = (.ok false, u) →
      Ran m (.ok !u.halted, u)
  | fault {m u e} : m.halted = false → m.state.stepCount < m.maxSteps → m.step = (.error e, u) →
      Ran m (.error e, u)

theorem after_succ (j : Nat) (m : Machine) : after (j + 1) m = (after j m).step.2 := by
  induction j generalizing m with
  | zero => rfl
  | succ j ih => exact ih m.step.2

theorem after_of_halted {m : Machine} (h : m.halted = true) (j : Nat) : after j m = m := by
  induction j with
  | zero => rfl
  | succ j ih =>
    rw [after, step_of_halted h]
    exact ih

/-- A step that executes nothing leaves the machine halted, as it was or as it is now. -/
theorem halted_of_stop {m : Machine} (h : m.step.1 ≠ .ok true) : m.step.2.halted = true := by
  by_cases hm : m.halted = true
  · rw [step_of_halted hm]
    exact hm
  · exact halted_of_step (Bool.eq_false_iff.mpr hm) (Prod.eta m.step).symm h

/-- A counted run leaves the machine where as many steps do: those after its end change nothing. -/
theorem machine_runFor (n : Nat) (m : Machine) : (runFor n m).2 = after n m := by
  induction n generalizing m with
  | zero => rfl
  | succ n ih =>
    rw [runFor, after]
    split
    · next next hnext =>
      rw [hnext]
      exact ih next
    · next hne =>
      have hstop : m.step.1 ≠ .ok true := by
        intro htrue
        exact hne m.step.2 (Prod.ext htrue rfl)
      rw [after_of_halted (halted_of_stop hstop)]

/-- A machine is halted by a fault only if a step has said so. -/
theorem halt_ne_fault_of_answers {m : Machine} (hm : m.state.halt ≠ some .fault) {j : Nat}
    (h : ∀ e, .error e ∉ answers j m) : (after j m).state.halt ≠ some .fault := by
  induction j generalizing m with
  | zero => exact hm
  | succ j ih =>
    have hfirst : ∀ e, m.step.1 ≠ .error e := by
      intro e he
      exact h e (he ▸ List.mem_cons_self)
    have hrest : ∀ e, .error e ∉ answers j m.step.2 := by
      intro e he
      exact h e (List.mem_cons_of_mem _ he)
    refine ih ?_ hrest
    have hcase := m.stepCase
    rcases hstep : m.step with ⟨a, t⟩
    rw [hstep] at hcase hfirst
    cases hcase with
    | halted => exact hm
    | spent | ended | starved => simp [haltWith]
    | @faulted i e => exact absurd rfl (hfirst e)
    | @executed i s hi hs =>
      rw [← (State.follows_perform hs).halt] at hm
      exact hm

/-- Two machines go in step until the first of them is halted for a certain reason, provided that
each step taken by both answers the same and leads to machines that are related again. -/
theorem after_related {R : Machine → Machine → Prop} {r : Halt}
    (hstep : ∀ m m', R m m' → m.step.2.state.halt ≠ some r →
      m'.step.1 = m.step.1 ∧ R m.step.2 m'.step.2)
    {m m' : Machine} (hm : R m m') {j : Nat} (h : (after j m).state.halt ≠ some r) :
    answers j m' = answers j m ∧ R (after j m) (after j m') := by
  induction j generalizing m m' with
  | zero => exact ⟨rfl, hm⟩
  | succ j ih =>
    have hfirst : m.step.2.state.halt ≠ some r := by
      intro hhalt
      have hhalted : m.step.2.halted = true := by rw [halted, State.halted, hhalt]; rfl
      rw [after, after_of_halted hhalted] at h
      exact h hhalt
    obtain ⟨hanswer, hrelated⟩ := hstep m m' hm hfirst
    obtain ⟨hanswers, hafter⟩ := ih hrelated h
    rw [answers, answers, hanswer]
    exact ⟨congrArg (m.step.1 :: ·) hanswers, hafter⟩

/-- If the image of a machine takes the step that the machine does, then it takes all the steps that
the machine does. -/
theorem after_image {F : Machine → Machine} {P : Machine → Prop} {r : Halt}
    (hkept : ∀ m, P m → P m.step.2)
    (hstep : ∀ m, P m → m.step.2.state.halt ≠ some r → (F m).step = (m.step.1, F m.step.2))
    {m : Machine} (hm : P m) {j : Nat} (h : (after j m).state.halt ≠ some r) :
    answers j (F m) = answers j m ∧ after j (F m) = F (after j m) := by
  have hboth : ∀ t t', (P t ∧ t' = F t) → t.step.2.state.halt ≠ some r →
      t'.step.1 = t.step.1 ∧ P t.step.2 ∧ t'.step.2 = F t.step.2 := by
    rintro t _ ⟨ht, rfl⟩ hhalt
    rw [hstep t ht hhalt]
    exact ⟨rfl, hkept t ht, rfl⟩
  obtain ⟨hanswers, -, hafter⟩ := after_related hboth ⟨hm, rfl⟩ h
  exact ⟨hanswers, hafter⟩

theorem Executes.eq_after {k : Nat} {m t : Machine} (h : Executes k m t) : t = m.after k := by
  induction h with
  | refl => rfl
  | step hstep _ ih => rw [after, hstep, ih]

theorem Executes.trans {k l : Nat} {m u t : Machine} (h : Executes k m u) (hu : Executes l u t) :
    Executes (k + l) m t := by
  induction h with
  | refl =>
    rw [Nat.zero_add]
    exact hu
  | step hstep _ ih =>
    rw [Nat.add_right_comm]
    exact .step hstep (ih hu)

theorem Executes.take {k : Nat} {m t : Machine} (h : Executes k m t) {i : Nat} (hi : i ≤ k) :
    Executes i m (m.after i) := by
  induction h generalizing i with
  | refl =>
    obtain rfl : i = 0 := by omega
    exact .refl
  | @step k m u t hstep _ ih =>
    cases i with
    | zero => exact .refl
    | succ i =>
      have hrest := ih (show i ≤ k by omega)
      rw [after, hstep]
      exact .step hstep hrest

theorem Executes.program_eq {k : Nat} {m t : Machine} (h : Executes k m t) :
    t.program = m.program := by
  induction h with
  | refl => rfl
  | step hstep _ ih => exact ih.trans (program_of_step hstep)

theorem Executes.maxSteps_eq {k : Nat} {m t : Machine} (h : Executes k m t) :
    t.maxSteps = m.maxSteps := by
  induction h with
  | refl => rfl
  | step hstep _ ih => exact ih.trans (maxSteps_of_step hstep)

/-- What is counted is just what is executed. -/
theorem Executes.stepCount_eq {k : Nat} {m t : Machine} (h : Executes k m t) :
    t.state.stepCount = m.state.stepCount + k := by
  induction h with
  | refl => rfl
  | step hstep _ ih =>
    have hcount := (counts_of_step hstep).2.2.1
    omega

/-- No more instructions are executed than the budget has left. -/
theorem Executes.le_left {k : Nat} {m t : Machine} (h : Executes k m t) :
    k ≤ m.maxSteps - m.state.stepCount := by
  induction h with
  | refl => exact Nat.zero_le _
  | step hstep _ ih =>
    obtain ⟨-, hbelow, hcount, -⟩ := counts_of_step hstep
    have hmax := maxSteps_of_step hstep
    omega

/-- The run is the loop, which therefore ends. -/
theorem ran_run (m : Machine) : Ran m m.run := by
  rw [run]
  generalize hn : m.maxSteps - m.state.stepCount = n
  -- by induction on what is left of the budget
  induction n generalizing m with
  | zero => exact .done (.inr (by omega))
  | succ n ih =>
    by_cases hm : m.halted = true
    · have hdone := Ran.done (.inl hm)
      rw [hm] at hdone
      rw [runFor_of_halted hm]
      exact hdone
    · have hrunning : m.halted = false := Bool.eq_false_iff.mpr hm
      have hbelow : m.state.stepCount < m.maxSteps := by omega
      rw [runFor]
      split
      · next u hu =>
        have hcount := (counts_of_step hu).2.2.1
        have hmax := maxSteps_of_step hu
        have hleft : u.maxSteps - u.state.stepCount = n := by omega
        exact .step hrunning hbelow hu (ih u hleft)
      · next hne =>
        rcases hstep : m.step with ⟨a, u⟩
        have ha : a ≠ .ok true := by
          intro ha
          subst ha
          exact hne u hstep
        have hu := halted_of_step hrunning hstep ha
        rcases a with e | _ | _
        · exact .fault hrunning hbelow hstep
        · have hstop := Ran.stop hrunning hbelow hstep
          rw [hu] at hstop
          exact hstop
        · exact absurd rfl ha

/-- A run executes instructions as long as it can. It ends with a step that executes nothing, or,
with the machine still running, when the budget is spent. -/
theorem Ran.executes {m : Machine} {r : Except Overflow Bool × Machine} (h : Ran m r)
    (hm : m.halted = false) : ∃ k t, Executes k m t ∧ t.halted = false ∧ t.step.1 ≠ .ok true ∧
      (r = t.step ∧ t.state.stepCount < t.maxSteps ∨
        r = (.ok true, t) ∧ t.maxSteps ≤ t.state.stepCount) := by
  induction h with
  | @done m hend =>
    have hspent : m.maxSteps ≤ m.state.stepCount := hend.resolve_left (by simp [hm])
    have hstep := step_of_case (.spent hm hspent)
    exact ⟨0, m, .refl, hm, by simp [hstep], .inr ⟨by rw [hm]; rfl, hspent⟩⟩
  | step _ _ hstep _ ih =>
    obtain ⟨k, t, hk, ht⟩ := ih (counts_of_step hstep).2.2.2
    exact ⟨k + 1, t, .step hstep hk, ht⟩
  | @stop m u _ hbelow hstep =>
    have hu := halted_of_step hm hstep (by simp)
    exact ⟨0, m, .refl, hm, by simp [hstep], .inl ⟨by rw [hstep, hu]; rfl, hbelow⟩⟩
  | @fault m u e _ hbelow hstep =>
    exact ⟨0, m, .refl, hm, by simp [hstep], .inl ⟨hstep.symm, hbelow⟩⟩

end Machine

end BlockMachine
