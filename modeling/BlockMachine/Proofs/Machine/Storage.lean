import Mathlib.Data.Finset.Card
import Mathlib.Data.Finset.Dedup
import BlockMachine.Proofs.Machine.Calls
import BlockMachine.Proofs.Program.Addressing

namespace BlockMachine

def Op.storesTo? : Op → Option Nat
  | copyTo c => some c
  | inbox | outbox | copyFrom _ | add _ | sub _ | jump _ | jumpIfZero _ | jumpIfNegative _
  | unconfigured _ => none

structure Execution where
  instruction : Instruction
  accumulator : Option Int
  deriving DecidableEq

def Execution.write? (e : Execution) : Option (Nat × Int) :=
  match e.instruction.op.storesTo?, e.accumulator with
  | some c, some v => some (c, v)
  | _, _ => none

def writes (es : List Execution) : List (Nat × Int) := es.filterMap Execution.write?

def lastWritten? (es : List Execution) (c : Nat) : Option Int := (writes es).reverse.lookup c

theorem Op.storesTo?_eq_some_iff {op : Op} {c : Nat} : op.storesTo? = some c ↔ op = .copyTo c := by
  cases op <;> simp [storesTo?]

theorem Execution.write?_eq_some_iff {e : Execution} {c : Nat} {v : Int} :
    e.write? = some (c, v) ↔ e.instruction.op = .copyTo c ∧ e.accumulator = some v := by
  rw [← Op.storesTo?_eq_some_iff, write?]
  split
  · next d u hd hu => simp [hd, hu]
  · next hnone =>
    constructor
    · intro h
      cases h
    · rintro ⟨hc, hv⟩
      exact absurd hv (hnone c v hc)

theorem writes_append (es ds : List Execution) : writes (es ++ ds) = writes es ++ writes ds :=
  List.filterMap_append

/-- What is written to a cell is an accumulator that an instruction found when it stored it there.
-/
theorem mem_writes_iff {es : List Execution} {c : Nat} {v : Int} : (c, v) ∈ writes es ↔
    ∃ e ∈ es, e.instruction.op = .copyTo c ∧ e.accumulator = some v := by
  simp only [writes, List.mem_filterMap, Execution.write?_eq_some_iff]

namespace Memory

theorem isSome_lookup_iff {ws : List (Nat × Int)} {c : Nat} :
    (ws.lookup c).isSome = true ↔ c ∈ ws.map Prod.fst := by
  induction ws with
  | nil => simp
  | cons w ws ih =>
    rw [lookup_cons_ite, List.map_cons, List.mem_cons, ← ih]
    split
    · next h => simp [h]
    · next h => simp [h]

def writeAll (m : Memory) (ws : List (Nat × Int)) : Memory := ws.foldl (fun m w => m.set w.1 w.2) m

theorem writeAll_append (m : Memory) (ws us : List (Nat × Int)) :
    m.writeAll (ws ++ us) = (m.writeAll ws).writeAll us := List.foldl_append

/-- Of several writes to a cell the last one counts. -/
theorem written?_writeAll (m : Memory) (ws : List (Nat × Int)) (c : Nat) :
    (m.writeAll ws).written? c = (ws.reverse.lookup c).or (m.written? c) := by
  induction ws generalizing m with
  | nil => rfl
  | cons w ws ih =>
    calc (writeAll (m.set w.1 w.2) ws).written? c
      _ = (ws.reverse.lookup c).or ((m.set w.1 w.2).written? c) := ih (m.set w.1 w.2)
      _ = ((ws.reverse ++ [w]).lookup c).or (m.written? c) := by
        rw [written?_set, List.lookup_append, Option.or_assoc, lookup_cons_ite]
        split <;> rfl
      _ = ((w :: ws).reverse.lookup c).or (m.written? c) := by rw [List.reverse_cons]

/-- The cells in use are counted without repetition. -/
theorem used_eq_card {m : Memory} {cells : Finset Nat}
    (h : ∀ c, c ∈ cells ↔ (m.written? c).isSome = true) : m.used = cells.card := by
  have hdistinct : (m.entries.map Prod.fst).Nodup := by
    apply List.pairwise_map.mpr
    exact m.ascending.imp Nat.ne_of_lt
  have hcells : cells = (m.entries.map Prod.fst).toFinset := by
    ext c
    rw [h, List.mem_toFinset]
    exact isSome_lookup_iff
  rw [hcells, List.toFinset_card_of_nodup hdistinct, List.length_map]
  rfl

end Memory

namespace State

variable {p : Program} {s t : State} {i : Instruction}

/-- The memory after an operation is the one before it with the write that the operation makes. -/
theorem memory_of_perform (h : s.perform p i.op = .ok t) :
    t.memory = s.memory.writeAll (writes [⟨i, s.accumulator⟩]) := by
  obtain ⟨position, op, label⟩ := i
  cases op with
  | copyTo c =>
    cases effect_of_perform h with
    | store hs =>
      rw [hs]
      rfl
    | jump hs => cases hs
    | skip hs =>
      have hnone : s.accumulator = none := hs
      rw [hnone]
      rfl
  | inbox | outbox | copyFrom | add | sub | jump | jumpIfZero | jumpIfNegative | unconfigured =>
    cases effect_of_perform h <;> rfl

theorem Course.memory_eq (h : Course s [] t) : t.memory = s.memory := by
  cases h with
  | refl | halt => rfl

end State

namespace Machine

def executionsFor : Nat → Machine → List Execution
  | 0, _ => []
  | n + 1, m =>
    match m.step with
    | (.ok true, next) => m.current?.toList.map (⟨·, m.state.accumulator⟩) ++ executionsFor n next
    | _ => []

def executionsBy (m : Machine) : Call → List Execution
  | .step => executionsFor 1 m
  | .run => executionsFor (m.maxSteps - m.state.stepCount) m
  | .install _ | .limit _ | .restart | .reset _ => []

def executions : List Call → Machine → List Execution
  | [], _ => []
  | c :: calls, m => m.executionsBy c ++ executions calls (m.call c).2

variable {m t : Machine} {calls : List Call}

theorem executionsFor_succ_of_step {i : Instruction} (hi : m.current? = some i)
    (h : m.step = (.ok true, t)) (n : Nat) :
    executionsFor (n + 1) m = ⟨i, m.state.accumulator⟩ :: executionsFor n t := by
  rw [executionsFor, h, hi]
  rfl

theorem executionsFor_succ_of_stop {a : Except Overflow Bool} (h : m.step = (a, t))
    (ha : a ≠ .ok true) (n : Nat) : executionsFor (n + 1) m = [] := by
  rw [executionsFor, h]
  rcases a with e | _ | _
  · rfl
  · rfl
  · exact absurd rfl ha

theorem map_instruction_executionsFor (n : Nat) (m : Machine) :
    (executionsFor n m).map (·.instruction) = traceFor n m := by
  induction n generalizing m with
  | zero => rfl
  | succ n ih =>
    rcases hstep : m.step with ⟨a, t⟩
    by_cases ha : a = .ok true
    · subst ha
      obtain ⟨i, hi⟩ := current_of_step hstep
      rw [executionsFor_succ_of_step hi hstep, traceFor_succ_of_step hi hstep, List.map_cons, ih]
    · rw [executionsFor_succ_of_stop hstep ha, traceFor_succ_of_stop hstep ha]
      rfl

/-- The executions are those of the instructions that the calls execute. -/
theorem map_instruction_executions (calls : List Call) (m : Machine) :
    (m.executions calls).map (·.instruction) = m.executed calls := by
  induction calls generalizing m with
  | nil => rfl
  | cons c calls ih =>
    have hcall : (m.executionsBy c).map (·.instruction) = m.executedBy c := by
      cases c with
      | step | run => exact map_instruction_executionsFor _ m
      | install | limit | restart | reset => rfl
    rw [executions, executed, List.map_append, hcall, ih]

theorem memory_runFor (n : Nat) (m : Machine) :
    (runFor n m).2.state.memory = m.state.memory.writeAll (writes (executionsFor n m)) := by
  induction n generalizing m with
  | zero => rfl
  | succ n ih =>
    rcases hstep : m.step with ⟨a, t⟩
    by_cases ha : a = .ok true
    · subst ha
      obtain ⟨i, hi, hs⟩ := exists_perform_of_step hstep
      rw [runFor_succ_of_step hstep, executionsFor_succ_of_step hi.current hstep, ih,
        State.memory_of_perform hs, ← Memory.writeAll_append, ← writes_append]
      rfl
    · -- the step at which a run ends writes nothing
      rw [runFor_succ_of_stop hstep ha, executionsFor_succ_of_stop hstep ha]
      exact (course_of_step hstep ha).memory_eq

/-- A call changes the memory by the writes of all that it executes, in their order. -/
theorem memory_call {c : Call} (hc : c.goesOn = true) (m : Machine) :
    (m.call c).2.state.memory = m.state.memory.writeAll (writes (m.executionsBy c)) := by
  cases c with
  | step =>
    have hstep := memory_runFor 1 m
    rw [runFor_one] at hstep
    exact hstep
  | run => exact memory_runFor _ m
  | install | limit => rfl
  | restart | reset => cases hc

/-- Memory is what has been written to it, write after write. -/
theorem memory_afterCalls (h : ∀ c ∈ calls, c.goesOn = true) (m : Machine) :
    (m.afterCalls calls).state.memory =
      m.state.memory.writeAll (writes (m.executions calls)) := by
  induction calls generalizing m with
  | nil => rfl
  | cons c calls ih =>
    obtain ⟨hc, hcalls⟩ := List.forall_mem_cons.mp h
    rw [executions, writes_append, Memory.writeAll_append, ← memory_call hc m]
    exact ih hcalls (m.call c).2

/-- What is written is written by blocks that were in force. -/
theorem writtenCells_subset (calls : List Call) (m : Machine) :
    ((writes (m.executions calls)).map Prod.fst).toFinset ⊆
      ((m.blocksInForce calls).filterMap (·.op.storesTo?)).toFinset := by
  intro c hc
  obtain ⟨⟨d, v⟩, hw, rfl⟩ := List.mem_map.mp (List.mem_toFinset.mp hc)
  obtain ⟨e, he, hop, -⟩ := mem_writes_iff.mp hw
  have hexecuted : e.instruction ∈ m.executed calls := by
    rw [← map_instruction_executions]
    exact List.mem_map_of_mem he
  have hforce := mem_blocksInForce_of_mem_executed hexecuted
  have hstores : e.instruction.op.storesTo? = some d := Op.storesTo?_eq_some_iff.mpr hop
  exact List.mem_toFinset.mpr (List.mem_filterMap.mpr ⟨_, hforce, hstores⟩)

/-- From a fresh start on, whatever is asked of the machine: a cell counts as written just if it was
stored to while there was an accumulator, and holds what the accumulator then was, the last time;
all other cells give 0. The cells in use are those that were stored to, each counted once, and so
there are no more of them than the blocks in force name. -/
theorem cells_hold_what_was_stored_last {m : Machine} {xs : List Int} (hm : m.state = .start xs)
    {calls : List Call} (h : ∀ c ∈ calls, c.goesOn = true) :
    let memory := (m.afterCalls calls).state.memory
    let es := m.executions calls
    es.map (·.instruction) = m.executed calls ∧
    (∀ c, (memory.written? c).isSome = true ↔
      ∃ e ∈ es, e.instruction.op = .copyTo c ∧ e.accumulator.isSome = true) ∧
    (∀ c, memory.get c = (lastWritten? es c).getD 0) ∧
    memory.used = ((writes es).map Prod.fst).toFinset.card ∧
    memory.used ≤ ((m.blocksInForce calls).filterMap (·.op.storesTo?)).toFinset.card ∧
    ∀ size, memory.cells size = (List.range size).map fun c => (lastWritten? es c).getD 0 := by
  intro memory es
  have hwritten (c : Nat) : memory.written? c = lastWritten? es c := by
    have hmemory : memory = m.state.memory.writeAll (writes es) := memory_afterCalls h m
    calc memory.written? c
      _ = (lastWritten? es c).or (m.state.memory.written? c) := by
        rw [hmemory, Memory.written?_writeAll, lastWritten?]
      _ = (lastWritten? es c).or none := by
        rw [hm]
        rfl
      _ = lastWritten? es c := Option.or_none
  have hget (c : Nat) : memory.get c = (lastWritten? es c).getD 0 := by
    rw [Memory.get, hwritten]
  have hcells (c : Nat) :
      c ∈ ((writes es).map Prod.fst).toFinset ↔ (memory.written? c).isSome = true := by
    rw [hwritten, lastWritten?, Memory.isSome_lookup_iff, List.map_reverse, List.mem_reverse,
      List.mem_toFinset]
  have hused : memory.used = ((writes es).map Prod.fst).toFinset.card := Memory.used_eq_card hcells
  refine ⟨map_instruction_executions calls m, ?_, hget, hused, ?_, ?_⟩
  · intro c
    rw [← hcells, List.mem_toFinset]
    constructor
    · intro hc
      obtain ⟨⟨d, v⟩, hw, rfl⟩ := List.mem_map.mp hc
      obtain ⟨e, he, hop, hv⟩ := mem_writes_iff.mp hw
      exact ⟨e, he, hop, by rw [hv]; rfl⟩
    · rintro ⟨e, he, hop, hsome⟩
      obtain ⟨v, hv⟩ := Option.isSome_iff_exists.mp hsome
      exact List.mem_map.mpr ⟨(c, v), mem_writes_iff.mpr ⟨e, he, hop, hv⟩, rfl⟩
  · rw [hused]
    exact Finset.card_le_card (writtenCells_subset calls m)
  · intro size
    exact List.map_congr_left fun c _ => hget c

/-- After a reset, one program stores to no cell for want of an accumulator and then to the last cell
there is; the next one goes on in the middle, stores a 0 and overwrites it. Four cells are named to
be stored to and two of them are written. -/
theorem stored_zero_is_overwritten :
    let p : Program := { instructions := [⟨0, .copyTo 8, none⟩, ⟨1, .inbox, none⟩,
      ⟨2, .copyTo 18446744073709551615, none⟩] }
    let m := (after 2 (fresh p 20 [7])).reset { initialInbox := [4, -1] }
    let calls : List Call := [.step, .step, .step, .install [⟨0, .copyTo 0, none⟩,
      ⟨0, .copyTo 0, none⟩, ⟨0, .copyTo 0, none⟩, ⟨3, .copyFrom 9, none⟩, ⟨4, .copyTo 3, none⟩,
      ⟨5, .inbox, none⟩, ⟨6, .add 18446744073709551615, none⟩, ⟨7, .copyTo 3, none⟩,
      ⟨8, .sub 6, none⟩], .run]
    let memory := (m.afterCalls calls).state.memory
    let es := m.executions calls
    writes es = [(18446744073709551615, 4), (3, 0), (3, 3)] ∧
      (∀ c, (memory.written? c).isSome = true ↔
        ∃ e ∈ es, e.instruction.op = .copyTo c ∧ e.accumulator.isSome = true) ∧
      memory.get 3 = 3 ∧ memory.get 3 = (lastWritten? es 3).getD 0 ∧
      memory.used = 2 ∧ memory.used = ((writes es).map Prod.fst).toFinset.card ∧
      ((m.blocksInForce calls).filterMap (·.op.storesTo?)).toFinset.card = 4 ∧
      memory.cells 4 = [0, 0, 0, 3] ∧
      memory.cells 4 = (List.range 4).map fun c => (lastWritten? es c).getD 0 := by
  intro p m calls memory es
  have hstart : m.state = .start [4, -1] := rfl
  have hgoesOn : ∀ c ∈ calls, c.goesOn = true := by decide
  have hwrites : writes (m.executions calls) = [(18446744073709551615, 4), (3, 0), (3, 3)] := by
    simp (disch := decide) only [m, calls, executions, call, install, Program.ofList_eq_self]
    decide +kernel
  have hfinal : (m.afterCalls calls).state.memory.get 3 = 3 ∧
      (m.afterCalls calls).state.memory.used = 2 ∧
      (m.afterCalls calls).state.memory.cells 4 = [0, 0, 0, 3] := by
    simp (disch := decide) only [m, calls, afterCalls, call, install, Program.ofList_eq_self]
    decide +kernel
  have hnamed : ((m.blocksInForce calls).filterMap (·.op.storesTo?)).toFinset.card = 4 := by decide
  obtain ⟨hread, hused, hcells⟩ := hfinal
  obtain ⟨-, hwritten, hlast, hcard, -, hlist⟩ := cells_hold_what_was_stored_last hstart hgoesOn
  exact ⟨hwrites, hwritten, hread, hlast 3, hused, hcard, hnamed, hcells, hlist 4⟩

end Machine

end BlockMachine
