import BlockMachine.Proofs.Machine.Bounds

/-! Machines that hold other numbers in the same places. All that a machine looks at in a number, as
long as it does not calculate with it, is the sign: if the items of the inbox are replaced by others
of the same sign, a program that only moves numbers goes the same way and moves the others in their
place. What it calculates from multiples of the items are the same multiples, as long as the machine
can hold them. -/
namespace BlockMachine

def Memory.map (f : Int → Int) (m : Memory) : Memory where
  entries := m.entries.map fun e => (e.1, f e.2)
  ascending := List.pairwise_map.mpr m.ascending

namespace Memory

variable (f : Int → Int)

theorem map_put (cell : Nat) (value : Int) (es : List (Nat × Int)) :
    (put cell value es).map (fun e => (e.1, f e.2)) =
      put cell (f value) (es.map fun e => (e.1, f e.2)) := by
  induction es with
  | nil => rfl
  | cons e es ih =>
    rw [put, List.map_cons, put]
    split
    · rfl
    · split
      · rfl
      · rw [List.map_cons, ih]

theorem map_set (m : Memory) (cell : Nat) (value : Int) :
    (m.set cell value).map f = (m.map f).set cell (f value) := by
  simp only [Memory.map, set, map_put]

theorem written?_map (m : Memory) (c : Nat) :
    (m.map f).written? c = (m.written? c).map f := by
  obtain ⟨es, hes⟩ := m
  change (es.map fun e => (e.1, f e.2)).lookup c = (es.lookup c).map f
  clear hes
  induction es with
  | nil => rfl
  | cons e es ih =>
    rw [List.map_cons, lookup_cons_ite, lookup_cons_ite, ih]
    split <;> rfl

variable {f}

/-- An unwritten cell goes on to give 0. -/
theorem get_map (h : f 0 = 0) (m : Memory) (c : Nat) : (m.map f).get c = f (m.get c) := by
  rw [get, get, written?_map]
  cases m.written? c with
  | none => exact h.symm
  | some v => rfl

end Memory

def Op.calculates : Op → Bool
  | .add _ | .sub _ => true
  | .inbox | .outbox | .copyTo _ | .copyFrom _ | .jump _ | .jumpIfZero _ | .jumpIfNegative _
  | .unconfigured _ => false

/-- The function takes negative numbers to negative ones and positive numbers to positive ones, as
far as the machine can hold them, and 0 to itself. -/
structure KeepsSigns (f : Int → Int) : Prop where
  zero : f 0 = 0
  negative : ∀ v, InRange v → v < 0 → f v < 0
  positive : ∀ v, InRange v → 0 < v → 0 < f v

theorem keepsSigns_mul {k : Int} (hk : 1 ≤ k) : KeepsSigns (k * ·) where
  zero := Int.mul_zero k
  negative _ _ hv := Int.mul_neg_of_pos_of_neg hk hv
  positive _ _ hv := Int.mul_pos hk hv

section Signs

variable {f : Int → Int} {v : Int}

theorem KeepsSigns.eq_zero_iff (hf : KeepsSigns f) (hv : InRange v) : f v = 0 ↔ v = 0 := by
  constructor
  · intro hzero
    rcases Int.lt_trichotomy v 0 with hneg | hv0 | hpos
    · have := hf.negative v hv hneg
      omega
    · exact hv0
    · have := hf.positive v hv hpos
      omega
  · rintro rfl
    exact hf.zero

theorem KeepsSigns.neg_iff (hf : KeepsSigns f) (hv : InRange v) : f v < 0 ↔ v < 0 := by
  constructor
  · intro hneg
    by_contra hv0
    rcases Int.lt_or_eq_of_le (Int.not_lt.mp hv0) with hpos | rfl
    · have := hf.positive v hv hpos
      omega
    · have := hf.zero
      omega
  · exact hf.negative v hv

/-- A number is in range if some multiple of it is. -/
theorem inRange_of_mul {k : Int} (hk : 1 ≤ k) (h : InRange (k * v)) : InRange v := by
  obtain ⟨hlow, hhigh⟩ := h
  constructor
  · by_contra hv
    have hle : k * v ≤ 1 * v := Int.mul_le_mul_of_nonpos_right hk (by omega)
    omega
  · by_contra hv
    have hle : 1 * v ≤ k * v := Int.mul_le_mul_of_nonneg_right hk (by omega)
    omega

end Signs

namespace State

def mapValues (f : Int → Int) (s : State) : State :=
  { s with
    accumulator := s.accumulator.map f
    inbox := s.inbox.map f
    sent := s.sent.map f
    memory := s.memory.map f }

structure Corresponds (f : Int → Int) (s t : State) : Prop where
  pc : t.pc = s.pc
  stepCount : t.stepCount = s.stepCount
  halt : t.halt = s.halt
  accumulator : t.accumulator = s.accumulator.map f
  inbox : t.inbox = s.inbox.map f
  outbox : t.outbox = s.outbox.map f
  written : ∀ c, t.memory.written? c = (s.memory.written? c).map f
  cells : ∀ c, t.memory.get c = f (s.memory.get c)

variable {f : Int → Int} {p : Program} {s : State} {op : Op}

theorem corresponds_mapValues (h : f 0 = 0) (s : State) : Corresponds f s (s.mapValues f) where
  pc := rfl
  stepCount := rfl
  halt := rfl
  accumulator := rfl
  inbox := rfl
  outbox := List.map_reverse.symm
  written := Memory.written?_map f s.memory
  cells := Memory.get_map h s.memory

/-- A number is replaced by 0 only if it is 0. -/
theorem accumulator_mapValues_eq_zero_iff (hf : KeepsSigns f) (hs : s.AllValues InRange) :
    (s.mapValues f).accumulator = some 0 ↔ s.accumulator = some 0 := by
  change s.accumulator.map f = some 0 ↔ s.accumulator = some 0
  cases hacc : s.accumulator with
  | none => simp
  | some v => simpa using hf.eq_zero_iff (hs.accumulator v hacc)

theorem accumulator_mapValues_any_neg (hf : KeepsSigns f) (hs : s.AllValues InRange) :
    (s.mapValues f).accumulator.any (· < 0) = s.accumulator.any (· < 0) := by
  change (s.accumulator.map f).any (· < 0) = s.accumulator.any (· < 0)
  cases hacc : s.accumulator with
  | none => rfl
  | some v => simpa using hf.neg_iff (hs.accumulator v hacc)

/-- Whatever an operation does without calculating, it does to the numbers that stand in the places
of others, too. -/
theorem perform_mapValues (hf : KeepsSigns f) (hs : s.AllValues InRange)
    (hop : op.calculates = false) :
    (s.mapValues f).perform p op = (s.perform p op).map (·.mapValues f) := by
  cases op with
  | inbox =>
    obtain ⟨pc, count, halt, acc, inbox, sent, mem⟩ := s
    cases inbox <;> rfl
  | outbox =>
    obtain ⟨pc, count, halt, acc, inbox, sent, mem⟩ := s
    cases acc <;> rfl
  | copyTo c =>
    obtain ⟨pc, count, halt, acc, inbox, sent, mem⟩ := s
    cases acc with
    | none => rfl
    | some v =>
      simp only [perform, mapValues, Option.map_some, Except.map, ← Memory.map_set]
      rfl
  | copyFrom c =>
    simp only [perform, mapValues, Memory.get_map hf.zero]
    rfl
  | jump | unconfigured => rfl
  | jumpIfZero l =>
    simp only [perform, accumulator_mapValues_eq_zero_iff hf hs]
    split <;> rfl
  | jumpIfNegative l =>
    simp only [perform, accumulator_mapValues_any_neg hf hs]
    split <;> rfl
  | add | sub => cases hop

theorem perform_mapValues_of_skips (h : s.Skips op) (hf : (s.mapValues f).Skips op) :
    (s.mapValues f).perform p op = (s.perform p op).map (·.mapValues f) := by
  rw [perform_of_effect (.skip h), perform_of_effect (.skip hf)]
  rfl

/-- If the machine can hold the multiple of a result, then it can hold the result. -/
theorem calculate_mapValues_mul {k : Int} (hk : 1 ≤ k) {o : Opcode} {x y v : Int}
    (h : ∀ e, (s.mapValues (k * ·)).calculate o (k * x) (k * y) (k * v) ≠ .error (.overflow e)) :
    (s.mapValues (k * ·)).calculate o (k * x) (k * y) (k * v) =
      (s.calculate o x y v).map (·.mapValues (k * ·)) := by
  have hin : InRange (k * v) := by
    by_contra hout
    exact h _ (calculate_eq_overflow_iff.mpr ⟨hout, rfl⟩)
  rw [calculate, calculate, if_pos hin, if_pos (inRange_of_mul hk hin)]
  rfl

/-- What is calculated from multiples is the multiple of what is calculated from the numbers, unless
the machine cannot hold it. -/
theorem perform_mapValues_mul {k : Int} (hk : 1 ≤ k) (hs : s.AllValues InRange)
    (h : ∀ e, (s.mapValues (k * ·)).perform p op ≠ .error (.overflow e)) :
    (s.mapValues (k * ·)).perform p op = (s.perform p op).map (·.mapValues (k * ·)) := by
  have hf := keepsSigns_mul hk
  have hget (c : Nat) := Memory.get_map hf.zero s.memory c
  cases op with
  | add c =>
    cases hacc : s.accumulator with
    | none =>
      exact perform_mapValues_of_skips hacc (congrArg (Option.map (k * ·)) hacc)
    | some v =>
      have hscaled : (s.mapValues (k * ·)).perform p (.add c) =
          (s.mapValues (k * ·)).calculate .add (k * v) (k * s.memory.get c)
            (k * (v + s.memory.get c)) := by
        simp only [perform, mapValues, hacc, hget, Option.map_some, Int.mul_add]
      rw [hscaled] at h ⊢
      rw [calculate_mapValues_mul hk h, perform, hacc]
  | sub c =>
    cases hacc : s.accumulator with
    | none =>
      exact perform_mapValues_of_skips hacc (congrArg (Option.map (k * ·)) hacc)
    | some v =>
      have hscaled : (s.mapValues (k * ·)).perform p (.sub c) =
          (s.mapValues (k * ·)).calculate .sub (k * v) (k * s.memory.get c)
            (k * (v - s.memory.get c)) := by
        simp only [perform, mapValues, hacc, hget, Option.map_some, Int.mul_sub]
      rw [hscaled] at h ⊢
      rw [calculate_mapValues_mul hk h, perform, hacc]
  | inbox | outbox | copyTo | copyFrom | jump | jumpIfZero | jumpIfNegative | unconfigured =>
    exact perform_mapValues hf hs rfl

/-- An operation that does not calculate cannot fail but for want of an item. -/
theorem perform_ne_overflow (hop : op.calculates = false) (e : Overflow) :
    s.perform p op ≠ .error (.overflow e) := by
  intro h
  cases perform_eq_overflow_iff.mp h with
  | add | sub => cases hop

end State

namespace Machine

def mapValues (f : Int → Int) (m : Machine) : Machine :=
  { m with initialInbox := m.initialInbox.map f, state := m.state.mapValues f }

variable {f : Int → Int} {m : Machine} {j : Nat}

theorem fresh_map (f : Int → Int) (p : Program) (n : Nat) (xs : List Int) :
    fresh p n (xs.map f) = (fresh p n xs).mapValues f := rfl

theorem step_mapValues
    (h : ∀ i, m.Executing i → (m.state.mapValues f).perform m.program i.op =
      (m.state.perform m.program i.op).map (·.mapValues f)) :
    (m.mapValues f).step = (m.step.1, m.step.2.mapValues f) := by
  have htracks : Tracks (mapValues f) (·.mapValues f) m := by
    refine ⟨fun _ => rfl, fun _ => rfl, rfl, Iff.rfl, fun _ _ hc => hc, ?_⟩
    intro i hi
    exact ⟨i, hi.current, h i hi⟩
  exact htracks.step

/-- The step of the machine with the multiples tells that of the other one, as long as it does not
overflow. -/
theorem step_mapValues_mul {k : Int} (hk : 1 ≤ k) (hm : m.state.AllValues InRange)
    (h : (m.mapValues (k * ·)).step.2.state.halt ≠ some .fault) :
    (m.mapValues (k * ·)).step = (m.step.1, m.step.2.mapValues (k * ·)) := by
  apply step_mapValues
  intro i hi
  apply State.perform_mapValues_mul hk hm
  intro e he
  have hi' : (m.mapValues (k * ·)).Executing i := ⟨hi.running, hi.below, hi.current⟩
  rw [step_of_case (.faulted hi' he)] at h
  exact h rfl

/-- If all items are multiplied by one number from 1 on, then the machine, as long as it does not
overflow, answers what it answers on the items themselves, where it does not overflow either, and
everything but the numbers is the same. The numbers are multiplied. -/
theorem multiplied_items_are_carried_through (p : Program) (n : Nat) {k : Int} (hk : 1 ≤ k)
    {xs : List Int} (hxs : ∀ x ∈ xs, InRange (k * x)) {j : Nat}
    (h : ∀ e, .error e ∉ answers j (fresh p n (xs.map (k * ·)))) :
    let a := fresh p n xs
    let b := fresh p n (xs.map (k * ·))
    (∀ e, .error e ∉ answers j a) ∧ answers j a = answers j b ∧
      State.Corresponds (k * ·) (after j a).state (after j b).state := by
  intro a b
  have hb : b = a.mapValues (k * ·) := fresh_map (k * ·) p n xs
  have ha : a.state.AllValues InRange := by
    apply State.allValues_start keptByArithmetic_inRange
    intro x hx
    exact inRange_of_mul hk (hxs x hx)
  have hrunning : b.state.halt ≠ some .fault := (Option.some_ne_none _).symm
  have hhalt : (after j b).state.halt ≠ some .fault := halt_ne_fault_of_answers hrunning h
  -- it is the second machine that must not overflow, and the first one that follows it
  have hstep : ∀ t t' : Machine, (t'.state.AllValues InRange ∧ t = t'.mapValues (k * ·)) →
      t.step.2.state.halt ≠ some .fault → t'.step.1 = t.step.1 ∧
        t'.step.2.state.AllValues InRange ∧ t.step.2 = t'.step.2.mapValues (k * ·) := by
    rintro _ t ⟨ht, rfl⟩ hne
    rw [step_mapValues_mul hk ht hne]
    exact ⟨rfl, allValues_step keptByArithmetic_inRange ht, rfl⟩
  obtain ⟨hanswers, -, hafter⟩ := after_related hstep ⟨ha, hb⟩ hhalt
  refine ⟨?_, hanswers, ?_⟩
  · rw [hanswers]
    exact h
  · rw [hafter]
    exact State.corresponds_mapValues (Int.mul_zero k) _

/-- Each item is doubled and put out unless it is negative. Three times the third item can be held,
but not twice as much: up to that sum the two machines go in step. -/
theorem tripled_items_until_a_sum_is_too_large :
    let p : Program := { instructions :=
      [⟨0, .inbox, some "next"⟩, ⟨1, .copyTo 3, none⟩, ⟨2, .sub 5, none⟩, ⟨3, .add 3, none⟩,
        ⟨4, .jumpIfNegative "next", none⟩, ⟨5, .outbox, none⟩, ⟨6, .jump "next", none⟩] }
    let xs : List Int := [-5, 1537228672809129301, 1537228672809129302]
    let a := fresh p 40 xs
    let b := fresh p 40 (xs.map (3 * ·))
    (∀ x ∈ xs, InRange (3 * x)) ∧ (∀ e, .error e ∉ answers 15 b) ∧
      (after 16 b).state.halt = some .fault ∧ (∀ e, .error e ∉ answers 15 a) ∧
      answers 15 a = answers 15 b ∧
      State.Corresponds (3 * ·) (after 15 a).state (after 15 b).state := by
  intro p xs a b
  have hxs : ∀ x ∈ xs, InRange (3 * x) := by decide
  have hb : answers 15 b = List.replicate 15 (.ok true) := by decide +kernel
  have hnever : ∀ e, .error e ∉ answers 15 b := by simp [hb]
  have hfault : (after 16 b).state.halt = some .fault := by decide +kernel
  exact ⟨hxs, hnever, hfault, multiplied_items_are_carried_through p 40 (by decide) hxs hnever⟩

/-- Nothing overflows in a program that does not calculate. -/
theorem error_notMem_answers (h : ∀ i ∈ m.program.instructions, i.op.calculates = false) (j : Nat)
    (e : Overflow) : .error e ∉ answers j m := by
  induction j generalizing m with
  | zero => exact List.not_mem_nil
  | succ j ih =>
    have hprogram : m.step.2.program = m.program := program_of_step (Prod.eta m.step).symm
    have hrest : .error e ∉ answers j m.step.2 := by
      apply ih
      rw [hprogram]
      exact h
    have hcase := m.stepCase
    rcases hstep : m.step with ⟨a, t⟩
    rw [hstep] at hcase hrest
    rw [answers, hstep]
    intro he
    rcases List.mem_cons.mp he with rfl | he
    · cases hcase with
      | faulted hi hs =>
        exact State.perform_ne_overflow (h _ (List.mem_of_getElem? hi.current)) e hs
    · exact hrest he

/-- A program that does not calculate moves the items about, and looks at nothing but their signs.
With other items of the same signs in the inbox it answers the same, never overflows, and moves them
in the place of those that they replace. -/
theorem replaced_items_are_carried_through {blocks : List Instruction}
    (hblocks : ∀ i ∈ blocks, i.op.calculates = false) (n : Nat) {f : Int → Int}
    (hf : KeepsSigns f) {xs : List Int} (hxs : ∀ x ∈ xs, InRange x) (j : Nat) :
    let a := fresh (.ofList blocks) n xs
    let b := fresh (.ofList blocks) n (xs.map f)
    answers j b = answers j a ∧ (∀ e, .error e ∉ answers j a) ∧
      State.Corresponds f (after j a).state (after j b).state := by
  intro a b
  have hprogram : ∀ i ∈ (Program.ofList blocks).instructions, i.op.calculates = false := by
    intro i hi
    exact hblocks i ((Program.ofList_perm blocks).mem_iff.mp hi)
  have hnever (e : Overflow) : .error e ∉ answers j a := error_notMem_answers hprogram j e
  have hrunning : a.state.halt ≠ some .fault := (Option.some_ne_none _).symm
  have hhalt : (after j a).state.halt ≠ some .fault := halt_ne_fault_of_answers hrunning hnever
  have ha : a.state.AllValues InRange := State.allValues_start keptByArithmetic_inRange hxs
  have hkept : ∀ t : Machine, (t.program = .ofList blocks ∧ t.state.AllValues InRange) →
      t.step.2.program = .ofList blocks ∧ t.step.2.state.AllValues InRange := by
    rintro t ⟨hp, hvalues⟩
    refine ⟨?_, allValues_step keptByArithmetic_inRange hvalues⟩
    exact (program_of_step (Prod.eta t.step).symm).trans hp
  have hstep : ∀ t : Machine, (t.program = .ofList blocks ∧ t.state.AllValues InRange) →
      t.step.2.state.halt ≠ some .fault →
      (t.mapValues f).step = (t.step.1, t.step.2.mapValues f) := by
    rintro t ⟨hp, hvalues⟩ -
    apply step_mapValues
    intro i hi
    have hmem : i ∈ (Program.ofList blocks).instructions := hp ▸ List.mem_of_getElem? hi.current
    exact State.perform_mapValues hf hvalues (hprogram i hmem)
  obtain ⟨hanswers, hafter⟩ := after_image hkept hstep ⟨rfl, ha⟩ hhalt
  rw [show b = a.mapValues f from fresh_map f _ n xs]
  refine ⟨hanswers, hnever, ?_⟩
  rw [hafter]
  exact State.corresponds_mapValues hf.zero _

/-- The negative items are dropped and those that are 0 are kept in a cell. Of the others, which are
put out, the smaller one is replaced by the larger one. -/
theorem replaced_items_are_sorted_by_sign :
    let blocks : List Instruction :=
      [⟨4, .outbox, none⟩, ⟨0, .inbox, some "next"⟩, ⟨1, .jumpIfNegative "next", none⟩,
        ⟨2, .unconfigured .add, none⟩, ⟨3, .jumpIfZero "keep", none⟩, ⟨5, .jump "next", none⟩,
        ⟨6, .copyTo 2, some "keep"⟩, ⟨7, .jump "next", none⟩]
    let f : Int → Int := fun v => if v = 1 then 9 else v.sign
    let xs : List Int := [1, -3, 0, 2]
    let a := fresh (.ofList blocks) 30 xs
    let b := fresh (.ofList blocks) 30 (xs.map f)
    KeepsSigns f ∧ answers 20 b = answers 20 a ∧ (∀ e, .error e ∉ answers 20 a) ∧
      State.Corresponds f (after 20 a).state (after 20 b).state ∧
      (after 20 b).state.outbox = [9, 1] := by
  intro blocks f xs a b
  have hf : KeepsSigns f := by
    refine ⟨rfl, ?_, ?_⟩
    · intro v _ hv
      simp only [f, if_neg (show v ≠ 1 by omega), Int.sign_eq_neg_one_of_neg hv]
      decide
    · intro v _ hv
      simp only [f, Int.sign_eq_one_of_pos hv]
      split <;> decide
  have hblocks : ∀ i ∈ blocks, i.op.calculates = false := by decide
  have hxs : ∀ x ∈ xs, InRange x := by decide
  obtain ⟨hanswers, hnever, hstates⟩ := replaced_items_are_carried_through hblocks 30 hf hxs 20
  have hsorted : Program.ofList blocks = { instructions :=
      [⟨0, .inbox, some "next"⟩, ⟨1, .jumpIfNegative "next", none⟩, ⟨2, .unconfigured .add, none⟩,
        ⟨3, .jumpIfZero "keep", none⟩, ⟨4, .outbox, none⟩, ⟨5, .jump "next", none⟩,
        ⟨6, .copyTo 2, some "keep"⟩, ⟨7, .jump "next", none⟩] } :=
    Program.ofList_eq_mk (by decide) (by decide)
  have houtbox : (after 20 a).state.outbox = [1, 2] := by
    simp only [a, hsorted]
    decide +kernel
  refine ⟨hf, hanswers, hnever, hstates, ?_⟩
  rw [hstates.outbox, houtbox]
  rfl

end Machine

end BlockMachine
