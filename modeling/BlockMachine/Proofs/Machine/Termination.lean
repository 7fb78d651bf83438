import Mathlib.Data.Finset.Card
import Mathlib.Logic.Relation
import BlockMachine.Proofs.Machine.Outcome

/-! Programs in which every loop takes an item. The inbox bounds how often such a loop is gone
through, and between two items control passes no block twice. -/
namespace BlockMachine

namespace Program

def DryAt (p : Program) (a : Nat) : Prop := (p.get? a).any (·.op ≠ .inbox)

instance (p : Program) (a : Nat) : Decidable (p.DryAt a) := inferInstanceAs (Decidable (_ = true))

def dryCount (p : Program) : Nat := p.instructions.countP (·.op ≠ .inbox)

inductive Flows (p : Program) : Nat → Nat → Prop
  | next {a i} : p.get? a = some i → (∀ l, i.op = .jump l → p.resolve l = none) →
      Flows p a (a + 1)
  | jump {a b i l} : p.get? a = some i → i.op.target? = some l → p.resolve l = some b →
      Flows p a b

structure FlowsDry (p : Program) (a b : Nat) : Prop where
  source : p.DryAt a
  flows : p.Flows a b
  target : p.DryAt b

/-- No way leads from a block back to it without an item being taken. -/
def EveryLoopReads (p : Program) : Prop := ∀ a, ¬ Relation.TransGen p.FlowsDry a a

variable {p : Program}

/-- If control goes only forward until an item is taken, there is no loop that takes none. -/
theorem everyLoopReads_of_forwards (h : ∀ a b, p.FlowsDry a b → a < b) : p.EveryLoopReads := by
  intro a ha
  have hlt : a < a := by
    refine Relation.TransGen.head_induction_on (motive := fun b _ => b < a) ha ?_ ?_
    · intro b hb
      exact h b a hb
    · intro b c hb _ hc
      exact Nat.lt_trans (h b c hb) hc
  omega

open scoped Classical in
noncomputable def ahead (p : Program) (a : Nat) : Finset Nat :=
  (Finset.range p.size).filter fun b =>
    p.DryAt a ∧ p.DryAt b ∧ Relation.ReflTransGen p.FlowsDry a b

theorem dryAt_iff {a : Nat} {i : Instruction} (h : p.get? a = some i) :
    p.DryAt a ↔ i.op ≠ .inbox := by
  simp [DryAt, h]

theorem lt_size_of_dryAt {a : Nat} (h : p.DryAt a) : a < p.size := by
  refine Nat.lt_of_not_le fun hpast => ?_
  have hnone : p.get? a = none := List.getElem?_eq_none hpast
  simp [DryAt, hnone] at h

theorem mem_ahead_iff {a b : Nat} : b ∈ p.ahead a ↔
    p.DryAt a ∧ p.DryAt b ∧ Relation.ReflTransGen p.FlowsDry a b := by
  simp only [ahead, Finset.mem_filter, Finset.mem_range]
  exact and_iff_right_of_imp fun h => lt_size_of_dryAt h.2.1

theorem mem_ahead_self {a : Nat} (h : p.DryAt a) : a ∈ p.ahead a :=
  mem_ahead_iff.mpr ⟨h, h, .refl⟩

theorem ahead_eq_empty {a : Nat} (h : ¬ p.DryAt a) : p.ahead a = ∅ := by
  refine Finset.eq_empty_of_forall_notMem fun b hb => ?_
  exact h (mem_ahead_iff.mp hb).1

/-- A block that takes no item is no longer ahead once it is passed. -/
theorem ahead_ssubset (h : p.EveryLoopReads) {a b : Nat} (hab : p.FlowsDry a b) :
    p.ahead b ⊂ p.ahead a := by
  have hsub : p.ahead b ⊆ p.ahead a := by
    intro c hc
    obtain ⟨-, hdry, hbc⟩ := mem_ahead_iff.mp hc
    exact mem_ahead_iff.mpr ⟨hab.source, hdry, .head hab hbc⟩
  refine (Finset.ssubset_iff_of_subset hsub).mpr ⟨a, mem_ahead_self hab.source, ?_⟩
  intro hback
  obtain ⟨-, -, hba⟩ := mem_ahead_iff.mp hback
  exact h a (.head' hab hba)

theorem card_dryAt (blocks : List Instruction) :
    ((Finset.range blocks.length).filter fun a => blocks[a]?.any (·.op ≠ .inbox)).card =
      blocks.countP (·.op ≠ .inbox) := by
  -- from the last block backwards, since the addresses of the others stay the same
  induction blocks using List.reverseRecOn with
  | nil => rfl
  | append_singleton blocks i ih =>
    have hsame : (Finset.range blocks.length).filter (fun a =>
        (blocks ++ [i])[a]?.any (·.op ≠ .inbox)) =
        (Finset.range blocks.length).filter fun a => blocks[a]?.any (·.op ≠ .inbox) := by
      refine Finset.filter_congr fun a ha => ?_
      rw [List.getElem?_append_left (Finset.mem_range.mp ha)]
    rw [List.length_append, List.length_singleton, Finset.range_add_one, Finset.filter_insert,
      hsame, List.countP_append, List.countP_singleton, ← ih]
    by_cases hi : i.op = .inbox
    · simp [hi]
    · simp [hi]

/-- No more blocks are ahead than there are blocks that take no item. -/
theorem card_ahead_le (a : Nat) : (p.ahead a).card ≤ p.dryCount := by
  have hsub : p.ahead a ⊆ (Finset.range p.size).filter p.DryAt := by
    intro b hb
    obtain ⟨-, hdry, -⟩ := mem_ahead_iff.mp hb
    exact Finset.mem_filter.mpr ⟨Finset.mem_range.mpr (lt_size_of_dryAt hdry), hdry⟩
  calc (p.ahead a).card
    _ ≤ ((Finset.range p.size).filter p.DryAt).card := Finset.card_le_card hsub
    _ = p.dryCount := card_dryAt p.instructions

end Program

namespace State

theorem target?_of_taken? {s : State} {op : Op} {l : Label} (h : s.taken? op = some l) :
    op.target? = some l := by
  cases op with
  | jump => exact h
  | jumpIfZero | jumpIfNegative =>
    rw [taken?] at h
    split at h
    · exact h
    · cases h
  | _ => cases h

/-- Control goes no other way than the blocks allow. -/
theorem flows_of_perform {p : Program} {s t : State} {i : Instruction}
    (hi : p.get? s.pc = some i) (h : s.perform p i.op = .ok t) : p.Flows s.pc t.pc := by
  have hpc := pc_of_perform h
  rw [nextAddress] at hpc
  rcases htaken : s.taken? i.op with _ | l
  · rw [htaken] at hpc
    have hpass : ∀ l, i.op = .jump l → p.resolve l = none := by
      intro l hop
      rw [hop] at htaken
      cases htaken
    exact hpc ▸ .next hi hpass
  · rw [htaken, Option.bind_some] at hpc
    rcases hl : p.resolve l with _ | b
    · rw [hl] at hpc
      have hpass : ∀ l', i.op = .jump l' → p.resolve l' = none := by
        intro l' hop
        rw [hop] at htaken
        cases htaken
        exact hl
      exact hpc ▸ .next hi hpass
    · rw [hl] at hpc
      exact hpc ▸ .jump hi (target?_of_taken? htaken) hl

/-- An INBOX takes one item, and nothing else takes any. -/
theorem inbox_of_perform {p : Program} {s t : State} {op : Op} (h : s.perform p op = .ok t) :
    s.inbox.length = t.inbox.length + if op = .inbox then 1 else 0 := by
  cases effect_of_perform h with
  | take hs =>
    rw [hs]
    rfl
  | send | store | load | add | sub => rfl
  | @jump op l hs =>
    have hop : op ≠ .inbox := by
      rintro rfl
      cases hs
    rw [if_neg hop]
    rfl
  | @skip op hs =>
    have hop : op ≠ .inbox := by
      rintro rfl
      exact hs
    rw [if_neg hop]
    rfl

end State

namespace Machine

/-- More instructions than this are not executed if every loop of the program takes an item: for
each item left, itself and all blocks that take none, and before the first of them those ahead. -/
noncomputable def allowance (m : Machine) : Nat :=
  m.state.inbox.length * (m.program.dryCount + 1) + (m.program.ahead m.state.pc).card

/-- Each instruction uses up some of the allowance. -/
theorem allowance_of_step {m t : Machine} (hp : m.program.EveryLoopReads)
    (h : m.step = (.ok true, t)) : t.allowance < m.allowance := by
  have hcase := m.stepCase
  rw [h] at hcase
  cases hcase with
  | @executed i s hi hs =>
    have hflows := State.flows_of_perform hi.current hs
    have hinbox := State.inbox_of_perform hs
    change s.inbox.length * (m.program.dryCount + 1) + (m.program.ahead s.pc).card < m.allowance
    rw [allowance]
    by_cases hop : i.op = .inbox
    · -- the item pays for all that may now be ahead
      rw [if_pos hop] at hinbox
      have hahead := m.program.card_ahead_le (a := s.pc)
      rw [hinbox, Nat.succ_mul]
      omega
    · have hdry : m.program.DryAt m.state.pc := (Program.dryAt_iff hi.current).mpr hop
      have hless : (m.program.ahead s.pc).card < (m.program.ahead m.state.pc).card := by
        by_cases hnext : m.program.DryAt s.pc
        · exact Finset.card_lt_card (Program.ahead_ssubset hp ⟨hdry, hflows, hnext⟩)
        · rw [Program.ahead_eq_empty hnext, Finset.card_empty]
          exact Finset.card_pos.mpr ⟨_, Program.mem_ahead_self hdry⟩
      rw [if_neg hop, Nat.add_zero] at hinbox
      rw [hinbox]
      exact Nat.add_lt_add_left hless _

theorem Executes.le_allowance {k : Nat} {m t : Machine} (h : Executes k m t)
    (hp : m.program.EveryLoopReads) : k ≤ m.allowance := by
  induction h with
  | refl => exact Nat.zero_le _
  | step hstep _ ih =>
    have hless := allowance_of_step hp hstep
    have hrest := ih (program_of_step hstep ▸ hp)
    omega

/-- If every loop of a program takes an item, only so many instructions are executed, whatever the
budget: each item can be followed by all blocks that take none, and so can the start. With a greater
budget the machine therefore halts by itself, at the end of the inbox or of the program, or with an
overflow. -/
theorem halts_if_every_loop_reads {p : Program} (hp : p.EveryLoopReads) (xs : List Int) :
    (∀ n k t, Executes k (fresh p n xs) t → k ≤ xs.length + (xs.length + 1) * p.dryCount) ∧
    ∀ n, xs.length + (xs.length + 1) * p.dryCount < n →
      (fresh p n xs).run.1 = .ok false ∧
          ((fresh p n xs).run.2.state.halt = some .inboxEmpty ∨
            (fresh p n xs).run.2.state.halt = some .endOfProgram) ∨
        ∃ e, (fresh p n xs).run.1 = .error e ∧ (fresh p n xs).run.2.state.halt = some .fault := by
  have hbound (n k : Nat) (t : Machine) (h : Executes k (fresh p n xs) t) :
      k ≤ xs.length + (xs.length + 1) * p.dryCount := by
    have hahead := p.card_ahead_le (a := 0)
    calc k
      _ ≤ (fresh p n xs).allowance := h.le_allowance hp
      _ = xs.length * (p.dryCount + 1) + (p.ahead 0).card := rfl
      _ ≤ xs.length * (p.dryCount + 1) + p.dryCount := Nat.add_le_add_left hahead _
      _ = xs.length + (xs.length + 1) * p.dryCount := by
        rw [Nat.mul_succ, Nat.succ_mul]
        omega
  refine ⟨hbound, fun n hn => ?_⟩
  obtain ⟨k, t, hk, hends, ⟨c, hc⟩, -⟩ := exists_run_end (m := fresh p n xs) rfl
  have hcount : t.state.stepCount = 0 + k := hk.stepCount_eq
  have hmax : t.maxSteps = n := hk.maxSteps_eq
  cases c with
  | outOfBudget =>
    obtain ⟨hanswer, -, hspent⟩ := hc
    have hfew := hbound n k t hk
    rcases hends with hlast | ⟨hend, hlast⟩
    · rw [hlast] at hspent
      omega
    · rw [hlast] at hanswer
      exact absurd hanswer hend
  | alreadyHalted =>
    have hhalted : (fresh p n xs).halted = true := hc.2.1
    cases hhalted
  | finished =>
    obtain ⟨hanswer, -, ⟨hhalt, -⟩ | ⟨hhalt, -⟩⟩ := hc
    · exact .inl ⟨hanswer, .inl hhalt⟩
    · exact .inl ⟨hanswer, .inr hhalt⟩
  | overflowed =>
    obtain ⟨e, -, hanswer, hhalt, -⟩ := hc
    exact .inr ⟨e, hanswer, hhalt⟩

/-- Every item is read and put out in a loop of three blocks, two of which take no item. -/
theorem copying_loop_halts :
    let p : Program :=
      { instructions := [⟨0, .inbox, some "loop"⟩, ⟨1, .outbox, none⟩, ⟨2, .jump "loop", none⟩] }
    p.EveryLoopReads ∧ 3 + (3 + 1) * p.dryCount < 12 ∧
      ((fresh p 12 [1, 2, 3]).run.1 = .ok false ∧
          ((fresh p 12 [1, 2, 3]).run.2.state.halt = some .inboxEmpty ∨
            (fresh p 12 [1, 2, 3]).run.2.state.halt = some .endOfProgram) ∨
        ∃ e, (fresh p 12 [1, 2, 3]).run.1 = .error e ∧
          (fresh p 12 [1, 2, 3]).run.2.state.halt = some .fault) := by
  intro p
  have hp : p.EveryLoopReads := by
    refine Program.everyLoopReads_of_forwards fun a b hab => ?_
    cases hab.flows with
    | next => omega
    | @jump _ i l hi htarget hl =>
      have hmem : i ∈ p.instructions := List.mem_of_getElem? hi
      simp only [p, List.mem_cons, List.not_mem_nil, or_false] at hmem
      rcases hmem with rfl | rfl | rfl
      · cases htarget
      · cases htarget
      · cases htarget
        obtain rfl : 0 = b := Option.some.inj hl
        exact absurd hab.target (by decide)
  have hsmall : 3 + (3 + 1) * p.dryCount < 12 := by decide
  exact ⟨hp, hsmall, (halts_if_every_loop_reads hp [1, 2, 3]).2 12 hsmall⟩

end Machine

end BlockMachine
