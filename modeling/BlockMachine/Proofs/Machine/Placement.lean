import BlockMachine.Proofs.Machine.Calls
import BlockMachine.Proofs.Program.Addressing

namespace BlockMachine

def Instruction.body (i : Instruction) : Option Label × Op := (i.label, i.op)

namespace Program

def SameBodies (p q : Program) : Prop :=
  q.instructions.map Instruction.body = p.instructions.map Instruction.body

structure ActsLike (p q : Program) : Prop where
  ends : ∀ a, p.get? a = none → q.get? a = none
  acts : ∀ a i, p.get? a = some i → ∃ j, q.get? a = some j ∧
    ∀ s : State, s.perform q j.op = s.perform p i.op

variable {p q : Program}

theorem SameBodies.get? (h : p.SameBodies q) (a : Nat) :
    (q.get? a).map Instruction.body = (p.get? a).map Instruction.body := by
  rw [Program.get?, Program.get?, ← List.getElem?_map, ← List.getElem?_map, h]

/-- Labels lead to addresses, and these are the same in both programs. -/
theorem SameBodies.resolve_eq (h : p.SameBodies q) (l : Label) : q.resolve l = p.resolve l := by
  have hbodies (r : Program) : r.resolve l =
      (r.instructions.map Instruction.body).findIdx? fun b => b.1.filter (· ≠ "") = some l := by
    rw [resolve_eq_findIdx?, List.findIdx?_map]
    rfl
  rw [hbodies, hbodies, h]

end Program

def Op.rename (f : Label → Label) : Op → Op
  | .jump l => .jump (f l)
  | .jumpIfZero l => .jumpIfZero (f l)
  | .jumpIfNegative l => .jumpIfNegative (f l)
  | op => op

theorem Op.rename_id (op : Op) : op.rename id = op := by
  cases op <;> rfl

/-- All that an operation asks of the program is where its own label is, whatever its name. -/
theorem State.perform_rename {p q : Program} {f : Label → Label} {op : Op}
    (h : ∀ l, op.target? = some l → q.resolve (f l) = p.resolve l) (s : State) :
    s.perform q (op.rename f) = s.perform p op := by
  have hjump (l : Label) (hl : op.target? = some l) : s.jump q (f l) = s.jump p l := by
    rw [State.jump, State.jump, h l hl]
  cases op with
  | jump l | jumpIfZero l | jumpIfNegative l => simp only [Op.rename, perform, hjump l rfl]
  | inbox | outbox | copyTo | copyFrom | add | sub | unconfigured => rfl

/-- Of the program around it an operation sees no more than where its own target is. -/
theorem State.perform_congr {p q : Program} {op : Op}
    (h : ∀ l, op.target? = some l → q.resolve l = p.resolve l) (s : State) :
    s.perform q op = s.perform p op := by
  have hsame := State.perform_rename (f := id) h s
  rw [Op.rename_id] at hsame
  exact hsame

theorem Program.SameBodies.actsLike {p q : Program} (h : p.SameBodies q) : p.ActsLike q where
  ends a hnone := by
    have hbody := h.get? a
    rw [hnone] at hbody
    exact Option.map_eq_none_iff.mp hbody
  acts a i hi := by
    have hbody := h.get? a
    rw [hi] at hbody
    obtain ⟨j, hj, hji⟩ := Option.map_eq_some_iff.mp hbody
    have hop : j.op = i.op := congrArg Prod.snd hji
    refine ⟨j, hj, fun s => ?_⟩
    rw [hop]
    exact State.perform_congr (fun l _ => h.resolve_eq l) s

namespace Machine

/-- No calls that leave the programs of the two machines alone can tell the machines apart: they
give the same answers and lead to the same states, in which the same block is next. -/
def Indistinguishable (m m' : Machine) : Prop :=
  ∀ calls : List Call, (∀ c ∈ calls, c.keepsProgram = true) →
    m'.replies calls = m.replies calls ∧
    (m'.afterCalls calls).state = (m.afterCalls calls).state ∧
    (m'.afterCalls calls).current?.map Instruction.body =
      (m.afterCalls calls).current?.map Instruction.body

variable {m : Machine} {q : Program} {calls : List Call}

/-- If the other program has at the pointer a block that does what the block here does, or ends
where this one does, then the step is the same with either. -/
theorem step_withProgram_of_block
    (hend : m.halted = false → m.state.stepCount < m.maxSteps → m.current? = none →
      q.get? m.state.pc = none)
    (hblock : ∀ i, m.Executing i → ∃ j, q.get? m.state.pc = some j ∧
      m.state.perform q j.op = m.state.perform m.program i.op) :
    (m.withProgram q).step = (m.step.1, m.step.2.withProgram q) := by
  have htracks : Tracks (withProgram · q) id m := by
    refine ⟨fun _ => rfl, fun _ => rfl, rfl, Iff.rfl, hend, ?_⟩
    intro i hi
    obtain ⟨j, hj, hperform⟩ := hblock i hi
    exact ⟨j, hj, hperform.trans (congrFun Except.map_id _).symm⟩
  exact htracks.step

/-- Programs that act alike can be exchanged before a step or after it. -/
theorem step_withProgram (h : m.program.ActsLike q) :
    (m.withProgram q).step = (m.step.1, m.step.2.withProgram q) := by
  apply step_withProgram_of_block
  · intro _ _ hnone
    exact h.ends m.state.pc hnone
  · intro i hi
    obtain ⟨j, hj, hacts⟩ := h.acts m.state.pc i hi.current
    exact ⟨j, hj, hacts m.state⟩

theorem runFor_withProgram (n : Nat) (h : m.program.ActsLike q) :
    runFor n (m.withProgram q) = ((runFor n m).1, (runFor n m).2.withProgram q) := by
  induction n generalizing m with
  | zero => rfl
  | succ n ih =>
    have hsame := step_withProgram h
    rcases hstep : m.step with ⟨a, t⟩
    rw [hstep] at hsame
    by_cases ha : a = .ok true
    · -- both execute a block, and the next ones are the same again
      subst ha
      have hnext : t.program.ActsLike q := by
        rw [program_of_step hstep]
        exact h
      rw [runFor_succ_of_step hsame, runFor_succ_of_step hstep]
      exact ih hnext
    · rw [runFor_succ_of_stop hsame ha, runFor_succ_of_stop hstep ha]

theorem call_withProgram {c : Call} (hc : c.keepsProgram = true) (h : m.program.ActsLike q) :
    (m.withProgram q).call c = ((m.call c).1, (m.call c).2.withProgram q) := by
  cases c with
  | step =>
    have hstep := step_withProgram h
    rw [call, hstep]
    rfl
  | run =>
    have hrun : (m.withProgram q).run = (m.run.1, m.run.2.withProgram q) := runFor_withProgram _ h
    rw [call, hrun]
    rfl
  | limit | restart | reset => rfl
  | install => cases hc

/-- They can be exchanged before any calls that leave the program alone, or after them. -/
theorem calls_withProgram (hcalls : ∀ c ∈ calls, c.keepsProgram = true)
    (h : m.program.ActsLike q) :
    (m.withProgram q).replies calls = m.replies calls ∧
      (m.withProgram q).afterCalls calls = (m.afterCalls calls).withProgram q := by
  induction calls generalizing m with
  | nil => exact ⟨rfl, rfl⟩
  | cons c calls ih =>
    obtain ⟨hc, hrest⟩ := List.forall_mem_cons.mp hcalls
    have hcall := call_withProgram hc h
    have hnext : (m.call c).2.program.ActsLike q := by
      rw [program_call m hc]
      exact h
    obtain ⟨hreplies, hafter⟩ := ih hrest hnext
    rw [replies, replies, afterCalls, afterCalls, hcall]
    exact ⟨congrArg ((m.call c).1 :: ·) hreplies, hafter⟩

theorem program_afterCalls (hcalls : ∀ c ∈ calls, c.keepsProgram = true) (m : Machine) :
    (m.afterCalls calls).program = m.program := by
  apply afterCalls_keeps (P := (·.program = m.program)) _ rfl
  intro c hc t ht
  exact (program_call t (hcalls c hc)).trans ht

/-- Blocks that are placed elsewhere, in the same order, make no difference. -/
theorem indistinguishable_withProgram (h : m.program.SameBodies q) :
    Indistinguishable m (m.withProgram q) := by
  intro calls hcalls
  obtain ⟨hreplies, hafter⟩ := calls_withProgram hcalls h.actsLike
  rw [hafter]
  refine ⟨hreplies, rfl, ?_⟩
  have hsame : (m.afterCalls calls).program.SameBodies q := by
    rw [program_afterCalls hcalls m]
    exact h
  exact hsame.get? _

end Machine

end BlockMachine
