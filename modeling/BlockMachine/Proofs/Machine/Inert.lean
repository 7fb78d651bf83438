import BlockMachine.Proofs.Machine.Relocation
import BlockMachine.Proofs.Machine.Trace
import BlockMachine.Proofs.Program.Addressing

namespace BlockMachine

def Op.isInert (blocks : List Instruction) : Op → Bool
  | .unconfigured _ => true
  | .jump l | .jumpIfZero l | .jumpIfNegative l => blocks.all (·.anchor? ≠ some l)
  | .inbox | .outbox | .copyTo _ | .copyFrom _ | .add _ | .sub _ => false

def Instruction.isIdle (blocks : List Instruction) (i : Instruction) : Bool :=
  i.op.isInert blocks && i.anchor?.isNone

def withoutIdle (blocks : List Instruction) : List Instruction :=
  blocks.filter (!·.isIdle blocks)

def Overflow.cause (e : Overflow) : Opcode × Int × Int := (e.opcode, e.lhs, e.rhs)

structure EndsAlike (r r' : Except Overflow Bool × Machine) : Prop where
  answer : r'.1.mapError Overflow.cause = r.1.mapError Overflow.cause
  halt : r'.2.state.halt = r.2.state.halt
  accumulator : r'.2.state.accumulator = r.2.state.accumulator
  inbox : r'.2.state.inbox = r.2.state.inbox
  outbox : r'.2.state.outbox = r.2.state.outbox
  memory : r'.2.state.memory = r.2.state.memory

theorem State.jump_eq_advance {p : Program} {l : Label} (h : p.resolve l = none) (s : State) :
    s.jump p l = s.advance := by
  rw [State.jump, h]
  rfl

theorem State.perform_of_isInert {blocks : List Instruction} {op : Op}
    (h : op.isInert blocks = true) (s : State) :
    s.perform (.ofList blocks) op = .ok s.advance := by
  have hjump (l : Label) (hl : blocks.all (·.anchor? ≠ some l) = true) :
      s.jump (.ofList blocks) l = s.advance := by
    refine jump_eq_advance (Program.resolve_eq_none_iff.mpr fun i hi => ?_) s
    have hmem : i ∈ blocks := (Program.ofList_perm blocks).mem_iff.mp hi
    exact of_decide_eq_true (List.all_eq_true.mp hl i hmem)
  cases op with
  | unconfigured => rfl
  | jump l => exact congrArg Except.ok (hjump l h)
  | jumpIfZero l | jumpIfNegative l =>
    rw [perform, hjump l h]
    split <;> rfl
  | inbox | outbox | copyTo | copyFrom | add | sub => cases h

namespace Program

structure Thins (p q : Program) (keep : Instruction → Bool) : Prop where
  instructions : q.instructions = p.instructions.filter keep
  anchored : ∀ i ∈ p.instructions, i.anchor? ≠ none → keep i = true
  passed : ∀ i ∈ p.instructions, keep i = false → ∀ s : State, s.perform p i.op = .ok s.advance

theorem thins_withoutIdle (blocks : List Instruction) :
    Thins (ofList blocks) (ofList (withoutIdle blocks)) (!·.isIdle blocks) where
  instructions := ofList_filter blocks _
  anchored i _ hi := by
    simp [Instruction.isIdle, Option.isSome_iff_ne_none, hi]
  passed i _ hi s := by
    simp only [Bool.not_eq_false', Instruction.isIdle, Bool.and_eq_true] at hi
    exact State.perform_of_isInert hi.1 s

variable {p q : Program} {keep : Instruction → Bool}

/-- The address of a kept block in the thinner program. Of a block that is left out it is the
address of the kept block that comes next. -/
def thinned (p : Program) (keep : Instruction → Bool) (a : Nat) : Nat :=
  keptBefore keep p.instructions a

/-- A block that is kept stands at its new address. -/
theorem Thins.get?_kept (h : Thins p q keep) {a : Nat} {i : Instruction}
    (hi : p.get? a = some i) (hk : keep i = true) : q.get? (p.thinned keep a) = some i := by
  rw [get?, h.instructions]
  exact getElem?_keptBefore hi hk

theorem Thins.get?_none (h : Thins p q keep) {a : Nat} (ha : p.get? a = none) :
    q.get? (p.thinned keep a) = none := by
  have hpast : p.instructions.length ≤ a := List.getElem?_eq_none_iff.mp ha
  rw [get?, h.instructions, thinned, keptBefore_of_length_le hpast]
  exact List.getElem?_eq_none (Nat.le_refl _)

theorem thinned_succ_of_kept {a : Nat} {i : Instruction} (hi : p.get? a = some i)
    (hk : keep i = true) : p.thinned keep (a + 1) = p.thinned keep a + 1 := by
  rw [thinned, keptBefore_succ hi, if_pos hk]
  rfl

theorem thinned_succ_of_not_kept {a : Nat} {i : Instruction} (hi : p.get? a = some i)
    (hk : keep i = false) : p.thinned keep (a + 1) = p.thinned keep a := by
  rw [thinned, keptBefore_succ hi, if_neg (by simp [hk])]
  rfl

/-- A kept block leads in the thinner program to where it led before. -/
theorem Thins.nextAddress (h : Thins p q keep) {s : State} {i : Instruction}
    (hi : p.get? s.pc = some i) (hk : keep i = true) (n : Nat) :
    (s.relocate (p.thinned keep s.pc) n).nextAddress q i.op =
      p.thinned keep (s.nextAddress p i.op) := by
  have hsucc := thinned_succ_of_kept hi hk
  rw [State.nextAddress, State.nextAddress, State.taken?_relocate]
  rcases s.taken? i.op with _ | l
  · exact hsucc.symm
  · rw [Option.bind_some, Option.bind_some, resolve_of_filter h.instructions h.anchored]
    rcases p.resolve l with _ | b
    · exact hsucc.symm
    · rfl

end Program

namespace Machine

variable {p q : Program} {keep : Instruction → Bool} {m m' t t' : Machine}
  {is is' : List Instruction}

structure Mirrors (p q : Program) (keep : Instruction → Bool) (m m' : Machine) : Prop where
  full : m.program = p
  thin : m'.program = q
  state : m'.state = m.state.relocate (p.thinned keep m.state.pc) m'.state.stepCount

def AtKept (keep : Instruction → Bool) (m : Machine) : Prop :=
  ∀ i, m.current? = some i → keep i = true

theorem Mirrors.halted_eq (hm : Mirrors p q keep m m') : m'.halted = m.halted := by
  rw [halted, hm.state]
  rfl

theorem Mirrors.current?_eq (hpq : p.Thins q keep) (hm : Mirrors p q keep m m')
    (hk : AtKept keep m) : m'.current? = m.current? := by
  have hpc : m'.state.pc = p.thinned keep m.state.pc := congrArg State.pc hm.state
  have hfull : m.current? = p.get? m.state.pc := by rw [current?, hm.full]
  rw [current?, hm.thin, hpc]
  rcases hi : m.current? with _ | i
  · exact hpq.get?_none (hfull ▸ hi)
  · exact hpq.get?_kept (hfull ▸ hi) (hk i hi)

theorem Mirrors.endsAlike_haltWith (hm : Mirrors p q keep m m') (r : Halt)
    {a a' : Except Overflow Bool} (ha : a'.mapError Overflow.cause = a.mapError Overflow.cause) :
    EndsAlike (a, m.haltWith r) (a', m'.haltWith r) := by
  have haccumulator : m'.state.accumulator = m.state.accumulator := by rw [hm.state]; rfl
  have hinbox : m'.state.inbox = m.state.inbox := by rw [hm.state]; rfl
  have houtbox : m'.state.outbox = m.state.outbox := by rw [hm.state]; rfl
  have hmemory : m'.state.memory = m.state.memory := by rw [hm.state]; rfl
  exact ⟨ha, rfl, haccumulator, hinbox, houtbox, hmemory⟩

/-- At a block that is left out, only the machine that has it moves on. -/
theorem Mirrors.pass (hpq : p.Thins q keep) (hm : Mirrors p q keep m m') {i : Instruction}
    (hi : m.Executing i) (hk : keep i = false) :
    m.step = (.ok true, { m with state := m.state.advance }) ∧
      Mirrors p q keep { m with state := m.state.advance } m' := by
  have hget : p.get? m.state.pc = some i := hm.full ▸ hi.current
  have hmem : i ∈ p.instructions := List.mem_of_getElem? hget
  have hperform : m.state.perform m.program i.op = .ok m.state.advance := by
    rw [hm.full]
    exact hpq.passed i hmem hk m.state
  refine ⟨step_of_case (.executed hi hperform), hm.full, hm.thin, ?_⟩
  have hpc : p.thinned keep m.state.advance.pc = p.thinned keep m.state.pc :=
    Program.thinned_succ_of_not_kept hget hk
  rw [hpc]
  exact hm.state

/-- Elsewhere the two machines go in step: they execute the same block, or both are halted for the
same reason. -/
theorem Mirrors.step (hpq : p.Thins q keep) (hm : Mirrors p q keep m m') (hk : AtKept keep m)
    (hrunning : m.halted = false) (hbelow : m.state.stepCount < m.maxSteps)
    (hbelow' : m'.state.stepCount < m'.maxSteps) :
    (∃ u u', m.step = (.ok true, u) ∧ m'.step = (.ok true, u') ∧ Mirrors p q keep u u') ∨
      m.step.1 ≠ .ok true ∧ m'.step.1 ≠ .ok true ∧ EndsAlike m.step m'.step := by
  have hrunning' : m'.halted = false := hm.halted_eq.trans hrunning
  have hcurrent := hm.current?_eq hpq hk
  rcases hi : m.current? with _ | i
  · have hstep := step_of_case (.ended hrunning hbelow hi)
    have hstep' := step_of_case (.ended hrunning' hbelow' (hcurrent.trans hi))
    rw [hstep, hstep']
    exact .inr ⟨by simp, by simp, hm.endsAlike_haltWith _ rfl⟩
  · have hexec : m.Executing i := ⟨hrunning, hbelow, hi⟩
    have hexec' : m'.Executing i := ⟨hrunning', hbelow', hcurrent.trans hi⟩
    have hget : p.get? m.state.pc = some i := hm.full ▸ hi
    have hperform := State.perform_relocate p q m.state i.op
      (p.thinned keep m.state.pc) m'.state.stepCount
    rw [← hm.state, ← hm.thin] at hperform
    rcases hs : m.state.perform p i.op with (_ | e) | s
    · rw [hs] at hperform
      have hstep := step_of_case (.starved hexec (hm.full ▸ hs))
      have hstep' := step_of_case (.starved hexec' hperform)
      rw [hstep, hstep']
      exact .inr ⟨by simp, by simp, hm.endsAlike_haltWith _ rfl⟩
    · rw [hs] at hperform
      have hstep := step_of_case (.faulted hexec (hm.full ▸ hs))
      have hstep' := step_of_case (.faulted hexec' hperform)
      rw [hstep, hstep']
      exact .inr ⟨by simp, by simp, hm.endsAlike_haltWith _ rfl⟩
    · rw [hs] at hperform
      have hstep := step_of_case (.executed hexec (hm.full ▸ hs))
      have hstep' := step_of_case (.executed hexec' hperform)
      refine .inl ⟨_, _, hstep, hstep', hm.full, hm.thin, ?_⟩
      have hnext := hpq.nextAddress hget (hk i hi) m'.state.stepCount
      rw [← State.pc_of_perform hs] at hnext
      change s.relocate _ (m'.state.stepCount + 1) = s.relocate (p.thinned keep s.pc) _
      rw [← hnext, ← hm.thin, ← hm.state]
      rfl

/-- What the machine with all blocks executes, the other one executes too, but for the blocks that
are left out. -/
theorem Mirrors.traces (hpq : p.Thins q keep) (h : Traces m is t) (hm : Mirrors p q keep m m')
    (hbudget : m'.state.stepCount + (is.filter keep).length ≤ m'.maxSteps) :
    ∃ t', Traces m' (is.filter keep) t' ∧ Mirrors p q keep t t' := by
  induction h generalizing m' with
  | refl => exact ⟨m', .refl, hm⟩
  | @step m u t i is hi hstep _ ih =>
    obtain ⟨hrunning, hbelow, hcount, -⟩ := counts_of_step hstep
    rcases hk : keep i with _ | _
    · rw [List.filter_cons_of_neg (by simp [hk])] at hbudget ⊢
      obtain ⟨hpass, hmirrors⟩ := hm.pass hpq ⟨hrunning, hbelow, hi⟩ hk
      obtain rfl : u = { m with state := m.state.advance } :=
        congrArg Prod.snd (hstep.symm.trans hpass)
      exact ih hmirrors hbudget
    · rw [List.filter_cons_of_pos hk, List.length_cons] at hbudget
      have hat : AtKept keep m := by
        intro j hj
        obtain rfl : i = j := Option.some.inj (hi.symm.trans hj)
        exact hk
      have hbelow' : m'.state.stepCount < m'.maxSteps := by omega
      rcases hm.step hpq hat hrunning hbelow hbelow' with ⟨v, u', hv, hu', hmirrors⟩ | ⟨hend, -⟩
      · obtain rfl : u = v := congrArg Prod.snd (hstep.symm.trans hv)
        have hcount' := (counts_of_step hu').2.2.1
        have hmax' := maxSteps_of_step hu'
        obtain ⟨t', ht', hlast⟩ := ih hmirrors (by omega)
        rw [List.filter_cons_of_pos hk]
        exact ⟨t', .step ((hm.current?_eq hpq hat).trans hi) hu' ht', hlast⟩
      · exact absurd (congrArg Prod.fst hstep) hend

/-- A machine that is about to halt is not at a block that is left out. -/
theorem Mirrors.atKept_of_ends (hpq : p.Thins q keep) (hm : Mirrors p q keep m m')
    (hrunning : m.halted = false) (hbelow : m.state.stepCount < m.maxSteps)
    (hend : m.step.1 ≠ .ok true) : AtKept keep m := by
  intro i hi
  by_contra hk
  have hpass := (hm.pass hpq ⟨hrunning, hbelow, hi⟩ (Bool.eq_false_iff.mpr hk)).1
  exact hend (congrArg Prod.fst hpass)

/-- If the run with all blocks halts, the other run halts alike, provided that its budget allows
for it. -/
theorem Mirrors.halts (hpq : p.Thins q keep) (h : Halts m is t) (hm : Mirrors p q keep m m')
    (hbudget : m'.state.stepCount + (is.filter keep).length < m'.maxSteps) :
    ∃ t', Halts m' (is.filter keep) t' ∧ EndsAlike m.run m'.run := by
  obtain ⟨t', ht', hlast⟩ := Mirrors.traces hpq h.traces hm (by omega)
  have hcount' := ht'.executes.stepCount_eq
  have hmax' := ht'.executes.maxSteps_eq
  have hbelow' : t'.state.stepCount < t'.maxSteps := by omega
  have hat := hlast.atKept_of_ends hpq h.running h.below h.ends
  rcases hlast.step hpq hat h.running h.below hbelow' with ⟨u, -, hu, -⟩ | ⟨-, hend', halike⟩
  · exact absurd (congrArg Prod.fst hu) h.ends
  · have hhalts : Halts m' (is.filter keep) t' :=
      ⟨ht', hlast.halted_eq.trans h.running, hbelow', hend'⟩
    refine ⟨t', hhalts, ?_⟩
    rw [h.run_eq, hhalts.run_eq]
    exact halike

/-- The machine with all blocks passes those that are left out, of which there are no more than
blocks after the pointer, and then stands at a kept block or at the end. -/
theorem Mirrors.exists_atKept (hpq : p.Thins q keep) (hm : Mirrors p q keep m m')
    (hrunning : m.halted = false)
    (hbudget : m.state.stepCount + (p.size - m.state.pc) < m.maxSteps) :
    ∃ is u, Traces m is u ∧ is.filter keep = [] ∧ is.length ≤ p.size - m.state.pc ∧
      Mirrors p q keep u m' ∧ AtKept keep u := by
  generalize hd : p.size - m.state.pc = d at hbudget
  -- by induction on how many blocks come after the pointer
  induction d generalizing m with
  | zero =>
    refine ⟨[], m, .refl, rfl, Nat.zero_le _, hm, fun i hi => ?_⟩
    have hget : p.get? m.state.pc = some i := hm.full ▸ hi
    have hinside : m.state.pc < p.size := (List.getElem?_eq_some_iff.mp hget).1
    omega
  | succ d ih =>
    by_cases hat : AtKept keep m
    · exact ⟨[], m, .refl, rfl, Nat.zero_le _, hm, hat⟩
    · obtain ⟨i, hi, hk⟩ : ∃ i, m.current? = some i ∧ keep i = false := by
        simpa [AtKept] using hat
      have hbelow : m.state.stepCount < m.maxSteps := by omega
      obtain ⟨hpass, hmirrors⟩ := hm.pass hpq ⟨hrunning, hbelow, hi⟩ hk
      have hd' : p.size - m.state.advance.pc = d := by
        change p.size - (m.state.pc + 1) = d
        omega
      have hbudget' : m.state.advance.stepCount + d < m.maxSteps := by
        change m.state.stepCount + 1 + d < m.maxSteps
        omega
      obtain ⟨is, u, his, hnone, hlength, hu, hat'⟩ := ih hmirrors hrunning hd' hbudget'
      refine ⟨i :: is, u, .step hi hpass his, ?_, ?_, hu, hat'⟩
      · rw [List.filter_cons_of_neg (by simp [hk])]
        exact hnone
      · rw [List.length_cons]
        omega

/-- What the machine with the thinner program executes, the other one executes too, among blocks
that are left out. Each of the former can cost it all its blocks. -/
theorem Mirrors.exists_traces (hpq : p.Thins q keep) (h : Traces m' is' t')
    (hm : Mirrors p q keep m m') (hrunning : m.halted = false)
    (hbudget : m.state.stepCount + (is'.length + 1) * (p.size + 1) ≤ m.maxSteps) :
    ∃ is t, Traces m is t ∧ is.filter keep = is' ∧ Mirrors p q keep t t' ∧ AtKept keep t ∧
      t.state.stepCount < t.maxSteps := by
  induction h generalizing m with
  | @refl m' =>
    rw [List.length_nil, Nat.zero_add, Nat.one_mul] at hbudget
    obtain ⟨is, t, his, hnone, hlength, ht, hat⟩ := hm.exists_atKept hpq hrunning (by omega)
    have hcount := his.executes.stepCount_eq
    have hmax := his.executes.maxSteps_eq
    exact ⟨is, t, his, hnone, ht, hat, by omega⟩
  | @step m' u' t' i is' hi' hstep' _ ih =>
    rw [List.length_cons, Nat.succ_mul] at hbudget
    obtain ⟨is, u, his, hnone, hlength, hu, hat⟩ := hm.exists_atKept hpq hrunning (by omega)
    have hcount := his.executes.stepCount_eq
    have hmax := his.executes.maxSteps_eq
    obtain ⟨hrunning', hbelow', -⟩ := counts_of_step hstep'
    have hi : u.current? = some i := (hu.current?_eq hpq hat).symm.trans hi'
    have hbelow : u.state.stepCount < u.maxSteps := by omega
    rcases hu.step hpq hat (hu.halted_eq.symm.trans hrunning') hbelow hbelow' with
      ⟨v, v', hv, hv', hmirrors⟩ | ⟨-, hend, -⟩
    · obtain rfl : u' = v' := congrArg Prod.snd (hstep'.symm.trans hv')
      obtain ⟨-, -, hcountv, hrunningv⟩ := counts_of_step hv
      have hmaxv := maxSteps_of_step hv
      obtain ⟨js, t, hjs, hkept, hlast⟩ := ih hmirrors hrunningv (by omega)
      refine ⟨is ++ i :: js, t, his.trans (.step hi hv hjs), ?_, hlast⟩
      rw [List.filter_append, hnone, List.filter_cons_of_pos (hat i hi), hkept]
      rfl
    · exact absurd (congrArg Prod.fst hstep') hend

/-- If the run with the thinner program halts, so does the other one, alike, with a budget that
allows for the blocks that are left out. -/
theorem Mirrors.exists_halts (hpq : p.Thins q keep) (h : Halts m' is' t')
    (hm : Mirrors p q keep m m') (hrunning : m.halted = false)
    (hbudget : m.state.stepCount + (is'.length + 1) * (p.size + 1) ≤ m.maxSteps) :
    ∃ is t, Halts m is t ∧ is.filter keep = is' ∧ EndsAlike m.run m'.run := by
  obtain ⟨is, t, his, hkept, hlast, hat, hbelow⟩ :=
    Mirrors.exists_traces hpq h.traces hm hrunning hbudget
  have hrunning : t.halted = false := hlast.halted_eq.symm.trans h.running
  rcases hlast.step hpq hat hrunning hbelow h.below with ⟨-, u', -, hu', -⟩ | ⟨hend, -, halike⟩
  · exact absurd (congrArg Prod.fst hu') h.ends
  · have hhalts : Halts m is t := ⟨his, hrunning, hbelow, hend⟩
    refine ⟨is, t, hhalts, hkept, ?_⟩
    rw [hhalts.run_eq, h.run_eq]
    exact halike

theorem mirrors_fresh (n n' : Nat) (xs : List Int) :
    Mirrors p q keep (fresh p n xs) (fresh q n' xs) := ⟨rfl, rfl, rfl⟩

/-- Two runs that end alike, of which the first executes besides what the second does only blocks
with a certain property. -/
structure RunsAlike (idle : Instruction → Bool) (m m' : Machine) : Prop where
  alike : EndsAlike m.run m'.run
  steps : m.run.2.state.stepCount = m'.run.2.state.stepCount + m.trace.countP idle

theorem runsAlike_of_halts {idle : Instruction → Bool} {n n' : Nat} {xs : List Int}
    (h : Halts (fresh p n xs) is t) (h' : Halts (fresh q n' xs) (is.filter (!idle ·)) t')
    (halike : EndsAlike (fresh p n xs).run (fresh q n' xs).run) :
    RunsAlike idle (fresh p n xs) (fresh q n' xs) := by
  refine ⟨halike, ?_⟩
  have hlength := is.length_eq_length_filter_add idle
  rw [h.stepCount_eq, h'.stepCount_eq, h.trace_eq, List.countP_eq_length_filter]
  change 0 + is.length = 0 + (is.filter fun i => !idle i).length + (is.filter idle).length
  omega

/-- Blocks that were never given their operand, and jumps to a label that no block carries, do
nothing but count as steps. Without those of them that have no label, a run that halts or overflows
ends in the same way, and with as many steps less as they were executed. The other way round, with a
budget that allows for them, the run with all blocks ends as the run without them does. -/
theorem runsAlike_withoutIdle (blocks : List Instruction) (xs : List Int) :
    let p := Program.ofList blocks
    let q := Program.ofList (withoutIdle blocks)
    (∀ n, (fresh p n xs).run.2.halted = true →
      RunsAlike (·.isIdle blocks) (fresh p n xs) (fresh q n xs)) ∧
    ∀ n, (fresh q n xs).run.2.halted = true → ∃ n', (fresh p n' xs).run.2.halted = true ∧
      RunsAlike (·.isIdle blocks) (fresh p n' xs) (fresh q n xs) := by
  intro p q
  have hpq : p.Thins q (!·.isIdle blocks) := Program.thins_withoutIdle blocks
  refine ⟨fun n h => ?_, fun n h => ?_⟩
  · obtain ⟨is, t, his⟩ := exists_halts rfl h
    have hshort : is.length < n - 0 := his.length_lt
    have hfewer := List.length_filter_le (!·.isIdle blocks) is
    have hbudget : 0 + (is.filter (!·.isIdle blocks)).length < n := by omega
    obtain ⟨t', his', halike⟩ := Mirrors.halts hpq his (mirrors_fresh n n xs) hbudget
    exact runsAlike_of_halts his his' halike
  · obtain ⟨is', t', his'⟩ := exists_halts rfl h
    have hbudget : 0 + (is'.length + 1) * (p.size + 1) ≤ (is'.length + 1) * (p.size + 1) := by omega
    obtain ⟨is, t, his, rfl, halike⟩ := Mirrors.exists_halts hpq his'
      (mirrors_fresh ((is'.length + 1) * (p.size + 1)) n xs) rfl hbudget
    exact ⟨_, his.halted, runsAlike_of_halts his his' halike⟩

/-- An item is copied past a sum without a cell and a jump that leads nowhere, both of them given
out of order. -/
theorem copying_past_idle_blocks :
    let blocks : List Instruction :=
      [⟨3, .outbox, none⟩, ⟨0, .inbox, none⟩, ⟨2, .jumpIfZero "end", some ""⟩,
        ⟨1, .unconfigured .add, none⟩]
    let p := Program.ofList blocks
    let q := Program.ofList (withoutIdle blocks)
    (fresh p 5 [0]).run.2.halted = true ∧ (fresh q 3 [0]).run.2.halted = true ∧
      RunsAlike (·.isIdle blocks) (fresh p 5 [0]) (fresh q 5 [0]) ∧
      ∃ n', (fresh p n' [0]).run.2.halted = true ∧
        RunsAlike (·.isIdle blocks) (fresh p n' [0]) (fresh q 3 [0]) := by
  intro blocks p q
  have hpi : p = { instructions := [⟨0, .inbox, none⟩, ⟨1, .unconfigured .add, none⟩,
      ⟨2, .jumpIfZero "end", some ""⟩, ⟨3, .outbox, none⟩] } :=
    Program.ofList_eq_mk (by decide) (by decide)
  have hqi : q = { instructions := [⟨0, .inbox, none⟩, ⟨3, .outbox, none⟩] } :=
    Program.ofList_eq_mk (by decide) (by decide)
  have hp : (fresh p 5 [0]).run.2.halted = true := by
    rw [hpi]
    decide +kernel
  have hq : (fresh q 3 [0]).run.2.halted = true := by
    rw [hqi]
    decide +kernel
  have hboth := runsAlike_withoutIdle blocks [0]
  exact ⟨hp, hq, hboth.1 5 hp, hboth.2 3 hq⟩

end Machine

end BlockMachine
