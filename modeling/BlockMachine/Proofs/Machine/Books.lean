import BlockMachine.Proofs.Program.Addressing
import BlockMachine.Proofs.Machine.Calls

namespace BlockMachine

def Op.isLoad : Op → Bool
  | copyFrom _ => true
  | inbox | outbox | copyTo _ | add _ | sub _ | jump _ | jumpIfZero _ | jumpIfNegative _
  | unconfigured _ => false

def loads (is : List Instruction) : Nat := is.countP (·.op.isLoad)

namespace State

def earned (s : State) : Nat := s.outbox.length + s.accumulator.toList.length

def stored (s : State) : Nat := s.outbox.length + s.memory.used

variable {p : Program} {s t : State} {op : Op} {is : List Instruction}

/-- What one operation takes from the inbox, earns and stores. -/
theorem exists_taken_of_perform (h : s.perform p op = .ok t) : ∃ taken,
    taken ++ t.inbox = s.inbox ∧
    t.earned ≤ s.earned + taken.length + (if op.isLoad then 1 else 0) ∧
    taken.length + (if op.isLoad then 1 else 0) + t.stored ≤ s.stored + 1 := by
  cases effect_of_perform h with
  | @take v rest hs =>
    refine ⟨[v], hs.symm, ?_, ?_⟩
    · change s.outbox.length + 1 ≤ s.outbox.length + s.accumulator.toList.length + 1 + 0
      omega
    · change 1 + 0 + s.stored ≤ s.stored + 1
      omega
  | @send v hs =>
    have hout : (s.send v).outbox.length = s.outbox.length + 1 := by
      rw [outbox_send, List.length_append]
      rfl
    refine ⟨[], rfl, ?_, ?_⟩
    · -- the number leaves the accumulator for the outbox
      change (s.send v).outbox.length + 0 ≤ s.outbox.length + s.accumulator.toList.length + 0 + 0
      rw [hout, hs]
      exact Nat.le_refl _
    · change 0 + 0 + ((s.send v).outbox.length + s.memory.used) ≤ _
      rw [hout, stored]
      omega
  | @store c v =>
    refine ⟨[], rfl, Nat.le_refl _, ?_⟩
    change 0 + 0 + (s.outbox.length + (s.memory.set c v).used) ≤ _
    rw [Memory.used_set, stored]
    split <;> omega
  | load =>
    refine ⟨[], rfl, ?_, ?_⟩
    · change s.outbox.length + 1 ≤ s.outbox.length + s.accumulator.toList.length + 0 + 1
      omega
    · change 0 + 1 + s.stored ≤ s.stored + 1
      omega
  | add hs | sub hs =>
    refine ⟨[], rfl, ?_, ?_⟩
    · -- there is one number in the accumulator before and after
      change s.outbox.length + 1 ≤ s.outbox.length + s.accumulator.toList.length + 0 + 0
      rw [hs]
      exact Nat.le_refl _
    · change 0 + 0 + s.stored ≤ s.stored + 1
      omega
  | jump | skip =>
    refine ⟨[], rfl, Nat.le_add_right _ _, ?_⟩
    change 0 + (if op.isLoad then 1 else 0) + s.stored ≤ s.stored + 1
    split <;> omega

/-- What a course of instructions takes from the inbox, earns and stores. -/
theorem Course.exists_taken (h : Course s is t) : ∃ taken,
    taken ++ t.inbox = s.inbox ∧
    t.earned ≤ s.earned + taken.length + loads is ∧
    taken.length + loads is + t.stored ≤ s.stored + is.length := by
  induction h with
  | refl | halt => exact ⟨[], rfl, Nat.le_refl _, Nat.le_of_eq (Nat.zero_add _)⟩
  | @execute p s t u i is _ hs _ ih =>
    obtain ⟨taken, hinbox, hearned, hstored⟩ := exists_taken_of_perform hs
    obtain ⟨more, hinbox', hearned', hstored'⟩ := ih
    refine ⟨taken ++ more, ?_, ?_, ?_⟩
    · rw [List.append_assoc, hinbox', hinbox]
    · rw [List.length_append, loads, List.countP_cons]
      rw [loads] at hearned'
      omega
    · rw [List.length_append, loads, List.countP_cons, List.length_cons]
      rw [loads] at hstored'
      omega

end State

namespace Machine

/-- From a fresh start on, whatever is asked of the machine: what is gone from the inbox was taken
from its front. No more numbers are put out or held than were taken or loaded; the numbers taken,
loaded, put out and stored are all counted as steps. Without a block that loads, no more numbers
are put out than taken. -/
theorem books_balance {m : Machine} {xs : List Int} (hm : m.state = .start xs) {calls : List Call}
    (h : ∀ c ∈ calls, c.goesOn = true) :
    let t := (m.afterCalls calls).state
    ∃ taken, taken ++ t.inbox = xs ∧
      t.outbox.length + t.accumulator.toList.length ≤
        taken.length + loads (m.executed calls) ∧
      taken.length + loads (m.executed calls) + t.outbox.length + t.memory.used ≤ t.stepCount ∧
      ((∀ i ∈ m.blocksInForce calls, i.op.isLoad = false) →
        t.outbox.length ≤ taken.length) := by
  intro t
  have hcourse : m.state.Course (m.executed calls) t := course_afterCalls h m
  have hcount := hcourse.stepCount_eq
  obtain ⟨taken, hinbox, hearned, hstored⟩ := hcourse.exists_taken
  rw [hm] at hcount hinbox hearned hstored
  have hearned : t.outbox.length + t.accumulator.toList.length ≤
      0 + taken.length + loads (m.executed calls) := hearned
  have hstored : taken.length + loads (m.executed calls) + (t.outbox.length + t.memory.used) ≤
      0 + (m.executed calls).length := hstored
  have hcount : t.stepCount = 0 + (m.executed calls).length := hcount
  refine ⟨taken, hinbox, by omega, by omega, fun hnone => ?_⟩
  have hloads : loads (m.executed calls) = 0 := by
    apply List.countP_eq_zero.mpr
    intro i hi
    rw [hnone i (mem_blocksInForce_of_mem_executed hi)]
    exact Bool.false_ne_true
  omega

/-- After a reset one item is read and stored, then loaded by a program that is installed later:
two numbers are put out, of which one was read and one loaded. -/
theorem stored_item_is_put_out_twice :
    let p : Program := { instructions := [⟨0, .inbox, none⟩, ⟨1, .copyTo 3, none⟩] }
    let m := (after 1 (fresh p 9 [7])).reset { initialInbox := [4, 5] }
    let calls : List Call := [.step, .step, .install [⟨4, .outbox, none⟩, ⟨3, .copyFrom 3, none⟩,
      ⟨2, .outbox, none⟩, ⟨1, .inbox, none⟩, ⟨0, .inbox, none⟩], .run]
    let t := (m.afterCalls calls).state
    t.outbox = [4, 4] ∧ loads (m.executed calls) = 1 ∧ ∃ taken, taken ++ t.inbox = [4, 5] ∧
      t.outbox.length + t.accumulator.toList.length ≤ taken.length + loads (m.executed calls) ∧
      taken.length + loads (m.executed calls) + t.outbox.length + t.memory.used ≤ t.stepCount := by
  intro p m calls t
  have hstart : m.state = .start [4, 5] := rfl
  have hgoesOn : ∀ c ∈ calls, c.goesOn = true := by decide
  have hsorted : Program.ofList [⟨4, .outbox, none⟩, ⟨3, .copyFrom 3, none⟩, ⟨2, .outbox, none⟩,
      ⟨1, .inbox, none⟩, ⟨0, .inbox, none⟩] = { instructions := [⟨0, .inbox, none⟩,
        ⟨1, .inbox, none⟩, ⟨2, .outbox, none⟩, ⟨3, .copyFrom 3, none⟩, ⟨4, .outbox, none⟩] } :=
    Program.ofList_eq_mk (by decide) (by decide)
  have hout : (m.afterCalls calls).state.outbox = [4, 4] := by
    simp only [m, calls, afterCalls, call, install, hsorted]
    decide +kernel
  have hloads : loads (m.executed calls) = 1 := by
    simp only [m, calls, executed, call, install, hsorted]
    decide +kernel
  obtain ⟨taken, hinbox, hearned, hsteps, -⟩ := books_balance hstart hgoesOn
  exact ⟨hout, hloads, taken, hinbox, hearned, hsteps⟩

end Machine

end BlockMachine
