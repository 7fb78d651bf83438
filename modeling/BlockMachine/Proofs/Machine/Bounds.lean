import Mathlib.Algebra.Group.Nat.Defs
import BlockMachine.Proofs.Machine.Values
import BlockMachine.Proofs.Program.Addressing

namespace BlockMachine

namespace Program

theorem size_ofList (blocks : List Instruction) : (ofList blocks).size = blocks.length :=
  (ofList_perm blocks).length_eq

/-- A label that is found leads to a block. -/
theorem resolve_lt_size {p : Program} {l : Label} {a : Nat} (h : p.resolve l = some a) :
    a < p.size := by
  rw [resolve_eq_findIdx?] at h
  obtain ⟨hlt, -⟩ := List.findIdx?_eq_some_iff_getElem.mp h
  exact hlt

end Program

/-- An operation leads to a block of the program, or to the place behind the last one. -/
theorem State.nextAddress_le_size {p : Program} {s : State} (h : s.pc < p.size) (op : Op) :
    s.nextAddress p op ≤ p.size := by
  rw [nextAddress]
  cases hl : (s.taken? op).bind p.resolve with
  | none => exact h
  | some a =>
    obtain ⟨l, -, hfound⟩ := Option.bind_eq_some_iff.mp hl
    exact Nat.le_of_lt (Program.resolve_lt_size hfound)

theorem keptByArithmetic_inRange : KeptByArithmetic InRange where
  zero := by decide
  add _ _ _ _ hsum := hsum
  sub _ _ _ _ hdifference := hdifference

def Call.Fits : Call → Prop
  | install blocks => blocks.length < 2 ^ 64
  | limit n => n < 2 ^ 64
  | reset q => ∀ v ∈ q.initialInbox, InRange v
  | step | run | restart => True

namespace Machine

/-- The largest value of a measure since the last fresh start, `n` being the largest so far. The
value at the fresh start itself counts. -/
def peakFrom (f : Machine → Nat) : Nat → List Call → Machine → Nat
  | n, [], _ => n
  | n, c :: calls, m =>
    peakFrom f (max (if c.goesOn then n else 0) (f (m.call c).2)) calls (m.call c).2

def peak (f : Machine → Nat) (calls : List Call) (m : Machine) : Nat := peakFrom f (f m) calls m

structure Caps (f : Machine → Nat) (g : State → Nat) : Prop where
  start : ∀ xs, g (.start xs) = 0
  step : ∀ m : Machine, g m.step.2.state ≤ max (g m.state) (f m)
  fixed : ∀ m : Machine, f m.step.2 = f m

variable {m t : Machine} {f : Machine → Nat} {g : State → Nat}

theorem Executing.pc_lt_size {i : Instruction} (hi : m.Executing i) :
    m.state.pc < m.program.size := by
  obtain ⟨hlt, -⟩ := List.getElem?_eq_some_iff.mp hi.current
  exact hlt

/-- The pointer gets no farther than behind the last block. -/
theorem caps_pc : Caps (·.program.size) (·.pc) where
  start _ := rfl
  step m := by
    have hcase := m.stepCase
    rcases hstep : m.step with ⟨a, t⟩
    rw [hstep] at hcase
    cases hcase with
    | halted | spent | ended | starved | faulted => exact Nat.le_max_left ..
    | @executed i s hi hs =>
      have hnext := State.nextAddress_le_size hi.pc_lt_size i.op
      rw [← State.pc_of_perform hs] at hnext
      exact Nat.le_trans hnext (Nat.le_max_right ..)
  fixed m := congrArg Program.size (program_of_step (Prod.eta m.step).symm)

/-- No instruction is counted once the budget is spent. -/
theorem caps_stepCount : Caps (·.maxSteps) (·.stepCount) where
  start _ := rfl
  step m := by
    have hcase := m.stepCase
    rcases hstep : m.step with ⟨a, t⟩
    rw [hstep] at hcase
    cases hcase with
    | halted | spent | ended | starved | faulted => exact Nat.le_max_left ..
    | @executed i s hi hs =>
      have hbelow := hi.below
      have hcount := (State.follows_perform hs).count
      change s.stepCount ≤ max m.state.stepCount m.maxSteps
      omega
  fixed m := maxSteps_of_step (Prod.eta m.step).symm

theorem Caps.after (h : Caps f g) (j : Nat) (m : Machine) :
    g (after j m).state ≤ max (g m.state) (f m) := by
  induction j generalizing m with
  | zero => exact Nat.le_max_left ..
  | succ j ih =>
    have hfirst := h.step m
    have hrest := ih m.step.2
    rw [h.fixed] at hrest
    rw [Machine.after]
    omega

theorem Caps.call (h : Caps f g) {c : Call} (hc : c.goesOn = true) (m : Machine) :
    g (m.call c).2.state ≤ max (g m.state) (f m) := by
  cases c with
  | step => exact h.step m
  | run =>
    change g (runFor _ m).2.state ≤ _
    rw [machine_runFor]
    exact h.after _ m
  | install | limit => exact Nat.le_max_left ..
  | restart | reset => cases hc

theorem Caps.start_call (h : Caps f g) {c : Call} (hc : c.goesOn = false) (m : Machine) :
    g (m.call c).2.state = 0 := by
  cases c with
  | restart | reset => exact h.start _
  | step | run | install | limit => cases hc

/-- What has a cap never exceeds the largest cap since the last fresh start. -/
theorem Caps.le_peakFrom (h : Caps f g) {n : Nat} (hg : g m.state ≤ n) (hf : f m ≤ n)
    (calls : List Call) : g (m.afterCalls calls).state ≤ peakFrom f n calls m := by
  induction calls generalizing m n with
  | nil => exact hg
  | cons c calls ih =>
    apply ih
    · cases hc : c.goesOn with
      | true =>
        have hcall := h.call hc m
        rw [if_pos rfl]
        omega
      | false =>
        rw [h.start_call hc]
        exact Nat.zero_le _
    · exact Nat.le_max_right ..

/-- Since the last fresh start the measure was never above the largest of its caps. -/
theorem Caps.le_peak (h : Caps f g) (hm : g m.state ≤ f m) (calls : List Call) :
    g (m.afterCalls calls).state ≤ peak f calls m :=
  h.le_peakFrom hm (Nat.le_refl _) calls

structure Fits (m : Machine) : Prop where
  size : m.program.size < 2 ^ 64
  budget : m.maxSteps < 2 ^ 64
  initialInbox : ∀ v ∈ m.initialInbox, InRange v
  values : m.state.AllValues InRange

theorem fits_ofPuzzle {q : Puzzle} (h : ∀ v ∈ q.initialInbox, InRange v) : (ofPuzzle q).Fits where
  size := show 0 < 2 ^ 64 by decide
  budget := show defaultBudget < 2 ^ 64 by decide
  initialInbox := h
  values := State.allValues_start keptByArithmetic_inRange h

theorem Fits.with_state (h : m.Fits) (ht : t = { m with state := t.state })
    (hvalues : t.state.AllValues InRange) : t.Fits := by
  rw [ht]
  exact ⟨h.size, h.budget, h.initialInbox, hvalues⟩

/-- A call with arguments that fit leaves a machine that fits. -/
theorem Fits.call (h : m.Fits) {c : Call} (hc : c.Fits) : (m.call c).2.Fits := by
  cases c with
  | step =>
    have hvalues := allValues_step keptByArithmetic_inRange h.values
    exact h.with_state m.step_eq_with_state hvalues
  | run =>
    have hcourse : m.state.Course _ m.run.2.state := course_call (c := .run) rfl m
    exact h.with_state m.run_eq_with_state (hcourse.allValues keptByArithmetic_inRange h.values)
  | install blocks =>
    have hsize : (Program.ofList blocks).size < 2 ^ 64 := by
      rw [Program.size_ofList]
      exact hc
    exact ⟨hsize, h.budget, h.initialInbox, h.values⟩
  | limit n => exact ⟨h.size, hc, h.initialInbox, h.values⟩
  | restart =>
    have hvalues := State.allValues_start keptByArithmetic_inRange h.initialInbox
    exact ⟨h.size, h.budget, h.initialInbox, hvalues⟩
  | reset q =>
    have hvalues := State.allValues_start keptByArithmetic_inRange hc
    exact ⟨h.size, h.budget, hc, hvalues⟩

theorem Fits.afterCalls (h : m.Fits) {calls : List Call} (hcalls : ∀ c ∈ calls, c.Fits) :
    (m.afterCalls calls).Fits := by
  apply afterCalls_keeps _ h
  intro c hc t ht
  exact ht.call (hcalls c hc)

/-- Wherever an instruction is about to be executed, the next address and the next count are
machine words. -/
theorem Fits.of_executing (h : m.Fits) {i : Instruction} (hi : m.Executing i) :
    m.state.pc + 1 < 2 ^ 64 ∧ m.state.stepCount + 1 < 2 ^ 64 := by
  have hpc := hi.pc_lt_size
  have hsize := h.size
  have hbelow := hi.below
  have hbudget := h.budget
  omega

theorem Fits.executes {k : Nat} (h : m.Fits) (hk : Executes k m t) : t.Fits := by
  induction hk with
  | refl => exact h
  | @step k m u t hstep _ ih =>
    have hu := h.call (c := .step) trivial
    rw [Machine.call, hstep] at hu
    exact ih hu

/-- Whatever is asked of a machine: its pointer is never beyond the longest program, nor its count
beyond the largest budget, that there was since the last fresh start; before each instruction, be it
in a step or in the middle of a run, there is a machine word for the next address and for the next
count; and all numbers are signed 64-bit numbers. -/
theorem nothing_leaves_its_type {q : Puzzle} {calls : List Call}
    (hq : ∀ v ∈ q.initialInbox, InRange v) (hcalls : ∀ c ∈ calls, c.Fits) :
    let m := (ofPuzzle q).afterCalls calls
    m.state.pc ≤ peak (·.program.size) calls (ofPuzzle q) ∧
    m.state.stepCount ≤ peak (·.maxSteps) calls (ofPuzzle q) ∧
    (∀ k t i, Executes k m t → t.Executing i →
      t.state.pc + 1 < 2 ^ 64 ∧ t.state.stepCount + 1 < 2 ^ 64) ∧
    m.state.AllValues InRange := by
  intro m
  have hfits : m.Fits := (fits_ofPuzzle hq).afterCalls hcalls
  refine ⟨?_, ?_, ?_, hfits.values⟩
  · exact caps_pc.le_peak (Nat.zero_le _) calls
  · exact caps_stepCount.le_peak (Nat.zero_le _) calls
  · intro k t i hk hi
    exact (hfits.executes hk).of_executing hi

/-- With the largest budget there is, two instructions are executed on the largest number; then the
program is replaced by an empty one and the budget lowered. -/
theorem pointer_outlives_its_program :
    let q : Puzzle := { initialInbox := [9223372036854775807, -9223372036854775808] }
    let blocks : List Instruction :=
      [⟨5, .jump "again", none⟩, ⟨0, .inbox, some "again"⟩, ⟨2, .copyTo 0, none⟩]
    let calls : List Call :=
      [.limit 18446744073709551615, .install blocks, .step, .step, .install [], .limit 1]
    let m := (ofPuzzle q).afterCalls calls
    m.state.pc = 2 ∧ m.program.size = 0 ∧ m.state.pc ≤ peak (·.program.size) calls (ofPuzzle q) ∧
      m.state.stepCount = 2 ∧ m.maxSteps = 1 ∧
      m.state.stepCount ≤ peak (·.maxSteps) calls (ofPuzzle q) ∧ m.state.AllValues InRange := by
  intro q blocks calls m
  have hq : ∀ v ∈ q.initialInbox, InRange v := by decide
  have hcalls : ∀ c ∈ calls, c.Fits := by simp [calls, blocks, Call.Fits]
  obtain ⟨hpc, hcount, -, hvalues⟩ := nothing_leaves_its_type hq hcalls
  have hsorted : Program.ofList blocks = { instructions :=
      [⟨0, .inbox, some "again"⟩, ⟨2, .copyTo 0, none⟩, ⟨5, .jump "again", none⟩] } :=
    Program.ofList_eq_mk (by decide) (by decide)
  have hend : m.state.pc = 2 ∧ m.program.size = 0 ∧ m.state.stepCount = 2 ∧ m.maxSteps = 1 := by
    simp only [m, calls, afterCalls, call, install, hsorted]
    decide +kernel
  exact ⟨hend.1, hend.2.1, hpc, hend.2.2.1, hend.2.2.2, hcount, hvalues⟩

end Machine

end BlockMachine
