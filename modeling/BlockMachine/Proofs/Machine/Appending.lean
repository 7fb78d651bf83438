import BlockMachine.Proofs.Machine.Bounds
import BlockMachine.Proofs.Machine.Placement

namespace BlockMachine

structure Appendable (p q : List Instruction) : Prop where
  behind : ∀ i ∈ p, ∀ j ∈ q, i.position ≤ j.position
  uncaught : ∀ i ∈ p, ∀ l, i.op.target? = some l → (∀ j ∈ p, j.anchor? ≠ some l) →
    ∀ j ∈ q, j.anchor? ≠ some l

variable {p q : List Instruction}

/-- The appended blocks catch no jump of the blocks before them. -/
theorem Appendable.resolve_target (h : Appendable p q) {i : Instruction} (hi : i ∈ p) {l : Label}
    (hl : i.op.target? = some l) :
    (Program.ofList (p ++ q)).resolve l = (Program.ofList p).resolve l := by
  rw [Program.resolve_ofList_append h.behind]
  cases hp : (Program.ofList p).resolve l with
  | some a => rfl
  | none =>
    have hp' : ∀ j ∈ p, j.anchor? ≠ some l := Program.resolve_ofList_eq_none_iff.mp hp
    have hq : (Program.ofList q).resolve l = none :=
      Program.resolve_ofList_eq_none_iff.mpr (h.uncaught i hi l hl hp')
    rw [hq]
    rfl

namespace Machine

variable {m : Machine}

/-- A machine that a step finds at the end of its program was running within its budget, with no
block at the pointer. -/
theorem ended_of_step (hm : m.state.halt ≠ some .endOfProgram)
    (h : m.step.2.state.halt = some .endOfProgram) :
    m.halted = false ∧ m.state.stepCount < m.maxSteps ∧ m.current? = none := by
  have hcase := m.stepCase
  rcases hstep : m.step with ⟨a, t⟩
  rw [hstep] at hcase h
  cases hcase with
  | halted => exact absurd h hm
  | spent | starved | faulted => simp [haltWith] at h
  | ended hh hb hc => exact ⟨hh, hb, hc⟩
  | @executed i s hi hs =>
    have hhalt := (State.follows_perform hs).halt
    exact absurd (hhalt.symm.trans h) hm

/-- Only the step that finds no block can tell that there are more of them. -/
theorem step_append (h : Appendable p q) (hp : m.program = .ofList p)
    (hend : m.step.2.state.halt ≠ some .endOfProgram) :
    (m.withProgram (.ofList (p ++ q))).step =
      (m.step.1, m.step.2.withProgram (.ofList (p ++ q))) := by
  apply step_withProgram_of_block
  · -- with no block at the pointer, the step would have found the end
    intro hh hb hc
    rw [step_of_case (.ended hh hb hc)] at hend
    exact absurd rfl hend
  · intro i hi
    have hget : (Program.ofList p).get? m.state.pc = some i := by
      rw [← hp]
      exact hi.current
    have hlt : m.state.pc < p.length := by
      rw [← Program.size_ofList p, ← hp]
      exact hi.pc_lt_size
    have hmem : i ∈ p := (Program.ofList_perm p).mem_iff.mp (List.mem_of_getElem? hget)
    refine ⟨i, ?_, ?_⟩
    · rw [Program.get?_ofList_append h.behind, if_pos hlt, hget]
    · rw [hp]
      exact State.perform_congr (fun l hl => h.resolve_target hmem hl) m.state

theorem after_append (h : Appendable p q) (hp : m.program = .ofList p) {j : Nat}
    (hend : (after j m).state.halt ≠ some .endOfProgram) :
    answers j (m.withProgram (.ofList (p ++ q))) = answers j m ∧
      after j (m.withProgram (.ofList (p ++ q))) =
        (after j m).withProgram (.ofList (p ++ q)) := by
  apply after_image (F := (·.withProgram (.ofList (p ++ q)))) (P := (·.program = .ofList p))
    (r := .endOfProgram) _ _ hp hend
  · intro t ht
    exact (program_of_step (Prod.eta t.step).symm).trans ht
  · intro t ht hne
    exact step_append h ht hne

/-- A program is left at its end and nowhere else. -/
theorem pc_of_ended (hp : m.program = .ofList p) (hm : m.state.pc ≤ p.length) {j : Nat}
    (h : (after j m).current? = none) : (after j m).state.pc = p.length := by
  have hsize : m.program.size = p.length := by rw [hp, Program.size_ofList]
  have hle : (after j m).state.pc ≤ max m.state.pc m.program.size := caps_pc.after j m
  have hge : m.program.size ≤ (after j m).state.pc := by
    rw [current?, after_eq_with_state] at h
    exact List.getElem?_eq_none_iff.mp h
  omega

/-- To append blocks is to go on. Step by step, the machine with more blocks answers the same and is
in the same state as the one without them, as long as that one is not halted at the end of its
program, so that any other halt is that of both. When that one halts there, the other stands before
that step in the same state, running, behind the last block of the first program, and the first of
the appended blocks is next. The labels of the first program lead where they led, and the others
into the appended blocks. -/
theorem appended_blocks_continue (h : Appendable p q) (n : Nat) (xs : List Int) :
    let a := fresh (.ofList p) n xs
    let b := fresh (.ofList (p ++ q)) n xs
    (∀ j, (after j a).state.halt ≠ some .endOfProgram →
      answers j b = answers j a ∧ (after j b).state = (after j a).state) ∧
    (∀ j, (after j a).state.halt ≠ some .endOfProgram →
      (after (j + 1) a).state.halt = some .endOfProgram →
      (after j b).state = (after j a).state ∧ (after j b).halted = false ∧
        (after j b).state.pc = p.length ∧
        ∀ i, (Program.ofList q).get? 0 = some i → (after j b).Executing i) ∧
    ∀ l, b.program.resolve l =
      (a.program.resolve l).or (((Program.ofList q).resolve l).map (p.length + ·)) := by
  intro a b
  refine ⟨?_, ?_, Program.resolve_ofList_append h.behind⟩
  · intro j hj
    obtain ⟨hanswers, hafter⟩ := after_append h (m := a) rfl hj
    have hstate := congrArg Machine.state hafter
    exact ⟨hanswers, hstate⟩
  · intro j hj hend
    have hafter : after j b = (after j a).withProgram (.ofList (p ++ q)) :=
      (after_append h (m := a) rfl hj).2
    rw [after_succ] at hend
    obtain ⟨hrunning, hbelow, hcurrent⟩ := ended_of_step hj hend
    have hpc : (after j a).state.pc = p.length := pc_of_ended (m := a) rfl (Nat.zero_le _) hcurrent
    rw [hafter]
    refine ⟨rfl, hrunning, hpc, ?_⟩
    intro i hi
    refine ⟨hrunning, hbelow, ?_⟩
    change (Program.ofList (p ++ q)).get? (after j a).state.pc = some i
    rw [Program.get?_ofList_append h.behind, hpc, if_neg (Nat.lt_irrefl _), Nat.sub_self, hi]

/-- The first program ends after a jump that leads nowhere. The first of the blocks behind it is
at the position of that jump and carries a label once more. -/
theorem copying_goes_on_behind_the_end :
    let p : List Instruction :=
      [⟨1, .outbox, none⟩, ⟨0, .inbox, some "start"⟩, ⟨1, .jumpIfZero "nowhere", none⟩]
    let q : List Instruction := [⟨2, .jump "start", some "again"⟩, ⟨1, .copyTo 0, some "start"⟩]
    let a := fresh (.ofList p) 9 [0, 7]
    let b := fresh (.ofList (p ++ q)) 9 [0, 7]
    (after 3 a).state.halt = none ∧ (after 4 a).state.halt = some .endOfProgram ∧
      (after 3 b).state = (after 3 a).state ∧ (after 3 b).state.pc = 3 ∧
      (after 3 b).Executing ⟨1, .copyTo 0, some "start"⟩ ∧
      b.program.resolve "start" = some 0 ∧ b.program.resolve "again" = some 4 := by
  intro p q a b
  have h : Appendable p q := by
    constructor
    · decide
    · simp [p, q, Op.target?, Instruction.anchor?]
  have hsorted : Program.ofList p = { instructions :=
      [⟨0, .inbox, some "start"⟩, ⟨1, .outbox, none⟩, ⟨1, .jumpIfZero "nowhere", none⟩] } :=
    Program.ofList_eq_mk (by decide) (by decide)
  have happended : Program.ofList q = { instructions :=
      [⟨1, .copyTo 0, some "start"⟩, ⟨2, .jump "start", some "again"⟩] } :=
    Program.ofList_eq_mk (by decide) (by decide)
  have hthree : (after 3 a).state.halt = none := by
    simp only [a, hsorted]
    decide +kernel
  have hfour : (after 4 a).state.halt = some .endOfProgram := by
    simp only [a, hsorted]
    decide +kernel
  have hnot : (after 3 a).state.halt ≠ some .endOfProgram := by simp [hthree]
  obtain ⟨-, hseam, hlabels⟩ := appended_blocks_continue h 9 [0, 7]
  obtain ⟨hstate, -, hpc, hnext⟩ := hseam 3 hnot hfour
  refine ⟨hthree, hfour, hstate, hpc, ?_, ?_, ?_⟩
  · apply hnext
    rw [happended]
    rfl
  · rw [hlabels]
    simp only [hsorted, happended]
    decide +kernel
  · rw [hlabels]
    simp only [hsorted, happended]
    decide +kernel

end Machine

end BlockMachine
