import BlockMachine.Proofs.Machine.Trace
import BlockMachine.Proofs.Program.Addressing

/-! A loop that takes an item, works on it and puts out what it has come to, until there are no items
left. What it works on each item is said without the machine: operations are evaluated from left to
right on the cells and on the number at hand, and the cells are handed on from item to item. -/
namespace BlockMachine

def Op.isLocal : Op → Bool
  | .copyTo _ | .copyFrom _ | .add _ | .sub _ | .unconfigured _ => true
  | .inbox | .outbox | .jump _ | .jumpIfZero _ | .jumpIfNegative _ => false

def Op.evaluate (place : Nat) (cells : Memory) (v : Int) : Op → Except Overflow (Memory × Int)
  | .copyTo c => .ok (cells.set c v, v)
  | .copyFrom c => .ok (cells, cells.get c)
  | .add c =>
    if InRange (v + cells.get c) then .ok (cells, v + cells.get c)
    else .error ⟨.add, place, v, cells.get c⟩
  | .sub c =>
    if InRange (v - cells.get c) then .ok (cells, v - cells.get c)
    else .error ⟨.sub, place, v, cells.get c⟩
  | .inbox | .outbox | .jump _ | .jumpIfZero _ | .jumpIfNegative _ | .unconfigured _ =>
    .ok (cells, v)

def evaluateFrom (place : Nat) : List Op → Memory → Int → Except Overflow (Memory × Int)
  | [], cells, v => .ok (cells, v)
  | op :: ops, cells, v =>
    match op.evaluate place cells v with
    | .error e => .error e
    | .ok (cells, v) => evaluateFrom (place + 1) ops cells v

structure Streamed where
  /-- What the items came to, up to the one on which a result could not be held. -/
  results : List Int
  /-- The cells after the last item, or the result that could not be held. -/
  ending : Except Overflow Memory

def stream (ops : List Op) : Memory → List Int → Streamed
  | cells, [] => ⟨[], .ok cells⟩
  | cells, x :: xs =>
    match evaluateFrom 0 ops cells x with
    | .error e => ⟨[], .error e⟩
    | .ok (cells, y) =>
      let rest := stream ops cells xs
      ⟨y :: rest.results, rest.ending⟩

namespace State

variable {p : Program} {s : State} {op : Op} {place : Nat} {v w : Int} {cells : Memory}

theorem perform_of_evaluate_ok (hop : op.isLocal = true) (hv : s.accumulator = some v)
    (h : op.evaluate place s.memory v = .ok (cells, w)) :
    s.perform p op = .ok { s with accumulator := some w, memory := cells }.advance := by
  obtain ⟨pc, count, halt, acc, inbox, sent, mem⟩ := s
  obtain rfl : acc = some v := hv
  cases op with
  | copyTo | copyFrom | unconfigured =>
    cases h
    rfl
  | add c | sub c =>
    rw [Op.evaluate] at h
    split at h <;> cases h
    next hin => exact calculate_eq_ok_iff.mpr ⟨hin, rfl⟩
  | inbox | outbox | jump | jumpIfZero | jumpIfNegative => cases hop

theorem perform_of_evaluate_error {e : Overflow} (hv : s.accumulator = some v)
    (h : op.evaluate place s.memory v = .error e) :
    s.perform p op = .error (.overflow { e with pc := s.pc }) ∧ e.pc = place := by
  cases op with
  | add c | sub c =>
    rw [Op.evaluate] at h
    split at h <;> cases h
    next hout =>
    rw [perform, hv]
    exact ⟨calculate_eq_overflow_iff.mpr ⟨hout, rfl⟩, rfl⟩
  | inbox | outbox | copyTo | copyFrom | jump | jumpIfZero | jumpIfNegative | unconfigured => cases h

def past (s : State) (k : Nat) (cells : Memory) (v : Int) : State :=
  { s with pc := s.pc + k, stepCount := s.stepCount + k, accumulator := some v, memory := cells }

theorem past_zero (hv : s.accumulator = some v) : s.past 0 s.memory v = s := by
  rw [past, ← hv]
  rfl

theorem past_succ (s : State) (k : Nat) (cells cells' : Memory) (v v' : Int) :
    ({ s with accumulator := some v', memory := cells' } : State).advance.past k cells v =
      s.past (k + 1) cells v := by
  simp only [past, advance, arrive, Nat.add_assoc, Nat.add_comm 1]

end State

def Program.HasAt (p : Program) : Nat → List Op → Prop
  | _, [] => True
  | a, op :: ops => (p.get? a).map (·.op) = some op ∧ p.HasAt (a + 1) ops

theorem Program.hasAt_of_drop {p : Program} {a : Nat} {ops : List Op}
    (h : (p.instructions.map (·.op)).drop a = ops) : p.HasAt a ops := by
  induction ops generalizing a with
  | nil => trivial
  | cons op ops ih =>
    constructor
    · have hhead := congrArg List.head? h
      rw [List.head?_drop, List.getElem?_map] at hhead
      exact hhead
    · apply ih
      have htail := congrArg List.tail h
      rw [List.tail_drop] at htail
      exact htail

namespace Machine

structure Enters (m : Machine) (ops : List Op) : Prop where
  running : m.halted = false
  budget : m.state.stepCount + ops.length ≤ m.maxSteps
  code : m.program.HasAt m.state.pc ops

variable {m : Machine} {op : Op} {ops rest : List Op} {s : State}

theorem Enters.exists_executing (h : m.Enters (op :: ops)) : ∃ i, m.Executing i ∧ i.op = op := by
  obtain ⟨hcurrent, -⟩ := h.code
  obtain ⟨i, hi, hop⟩ := Option.map_eq_some_iff.mp hcurrent
  have hbudget := h.budget
  rw [List.length_cons] at hbudget
  exact ⟨i, ⟨h.running, by omega, hi⟩, hop⟩

theorem Enters.step (h : m.Enters (op :: ops)) (hs : m.state.perform m.program op = .ok s) :
    m.step = (.ok true, { m with state := s }) := by
  obtain ⟨i, hi, rfl⟩ := h.exists_executing
  exact step_of_case (.executed hi hs)

/-- An operation that does not jump leads to the next one. -/
theorem Enters.next (h : m.Enters (op :: ops)) (hs : m.state.perform m.program op = .ok s)
    (hpc : s.pc = m.state.pc + 1) : ({ m with state := s } : Machine).Enters ops where
  running := by
    have hhalt := (State.follows_perform hs).halt
    have hrunning := h.running
    rw [halted, State.halted] at hrunning ⊢
    rw [hhalt, hrunning]
  budget := by
    have hcount := (State.follows_perform hs).count
    have hbudget := h.budget
    rw [List.length_cons] at hbudget
    change s.stepCount + ops.length ≤ m.maxSteps
    omega
  code := by
    obtain ⟨-, hcode⟩ := h.code
    rw [← hpc] at hcode
    exact hcode

/-- Operations that can be evaluated are carried out, and the machine is about to carry out the rest
of them. -/
theorem Enters.executes {place : Nat} {v w : Int} {cells : Memory} (h : m.Enters (ops ++ rest))
    (hops : ∀ op ∈ ops, op.isLocal = true) (hv : m.state.accumulator = some v)
    (heval : evaluateFrom place ops m.state.memory v = .ok (cells, w)) :
    let t : Machine := { m with state := m.state.past ops.length cells w }
    Executes ops.length m t ∧ t.Enters rest := by
  induction ops generalizing m place v with
  | nil =>
    cases heval
    rw [List.length_nil, State.past_zero hv]
    exact ⟨.refl, h⟩
  | cons op ops ih =>
    obtain ⟨hop, hops'⟩ := List.forall_mem_cons.mp hops
    rw [evaluateFrom] at heval
    split at heval
    · cases heval
    · next cells' v' hfirst =>
      have hs := State.perform_of_evaluate_ok (p := m.program) hop hv hfirst
      have hstep := h.step hs
      obtain ⟨hrest, hlast⟩ := ih (h.next hs rfl) hops' rfl heval
      rw [State.past_succ] at hrest hlast
      exact ⟨.step hstep hrest, hlast⟩

/-- If they cannot, they are carried out as far as the result that cannot be held. -/
theorem Enters.overflows {place : Nat} {v : Int} {e : Overflow} (h : m.Enters (ops ++ rest))
    (hops : ∀ op ∈ ops, op.isLocal = true) (hv : m.state.accumulator = some v)
    (heval : evaluateFrom place ops m.state.memory v = .error e) :
    ∃ k t i, Executes k m t ∧ t.Executing i ∧ e.pc = place + k ∧ t.state.pc = m.state.pc + k ∧
      t.state.sent = m.state.sent ∧
      t.state.perform t.program i.op = .error (.overflow { e with pc := t.state.pc }) := by
  induction ops generalizing m place v with
  | nil => cases heval
  | cons op ops ih =>
    obtain ⟨hop, hops'⟩ := List.forall_mem_cons.mp hops
    rw [evaluateFrom] at heval
    split at heval
    · next hfirst =>
      cases heval
      obtain ⟨hs, hplace⟩ := State.perform_of_evaluate_error (p := m.program) hv hfirst
      obtain ⟨i, hi, rfl⟩ := h.exists_executing
      exact ⟨0, m, i, .refl, hi, hplace, rfl, rfl, hs⟩
    · next cells' v' hfirst =>
      have hs := State.perform_of_evaluate_ok (p := m.program) hop hv hfirst
      have hstep := h.step hs
      obtain ⟨k, t, i, hk, hi, hplace, hpc, hsent, ht⟩ := ih (h.next hs rfl) hops' rfl heval
      refine ⟨k + 1, t, i, .step hstep hk, hi, ?_, ?_, hsent, ht⟩
      · omega
      · rw [hpc]
        change m.state.pc + 1 + k = m.state.pc + (k + 1)
        omega

end Machine

def loopOps (ops : List Op) : List Op := .inbox :: (ops ++ [.outbox, .jump "loop"])

def loopBlocks (body : List (Option Label × Op)) : List (Option Label × Op) :=
  (some "loop", .inbox) :: (body ++ [(none, .outbox), (none, .jump "loop")])

def streamLoop (body : List (Option Label × Op)) : List Instruction :=
  (loopBlocks body).mapIdx fun a b => ⟨a, b.2, b.1⟩

def State.waiting (count : Nat) (inbox sent : List Int) (cells : Memory) : State :=
  { stepCount := count, inbox, sent, memory := cells }

namespace Machine

structure IsLoop (m : Machine) (ops : List Op) : Prop where
  code : m.program.HasAt 0 (loopOps ops)
  label : m.program.resolve "loop" = some 0
  isLocal : ∀ op ∈ ops, op.isLocal = true

variable {m : Machine} {ops : List Op} {count : Nat} {x y : Int} {xs sent : List Int}
  {cells cells' : Memory}

theorem IsLoop.enters (hm : m.IsLoop ops) (xs sent : List Int) (cells : Memory)
    (hbudget : count + (ops.length + 3) ≤ m.maxSteps) :
    ({ m with state := .waiting count xs sent cells } : Machine).Enters (loopOps ops) where
  running := rfl
  budget := by
    rw [loopOps, List.length_cons, List.length_append]
    exact hbudget
  code := hm.code

/-- The next item is taken, and the body is entered with it. -/
theorem IsLoop.step_of_item (hm : m.IsLoop ops) (hbudget : count + (ops.length + 3) ≤ m.maxSteps)
    (x : Int) (xs sent : List Int) (cells : Memory) :
    let s := { State.waiting count xs sent cells with accumulator := some x }.advance
    ({ m with state := .waiting count (x :: xs) sent cells } : Machine).step =
        (.ok true, { m with state := s }) ∧
      ({ m with state := s } : Machine).Enters (ops ++ [.outbox, .jump "loop"]) := by
  intro s
  have henters := hm.enters (x :: xs) sent cells hbudget
  have htake : (State.waiting count (x :: xs) sent cells).perform m.program .inbox = .ok s := rfl
  exact ⟨henters.step htake, henters.next htake rfl⟩

/-- Once around the loop. -/
theorem IsLoop.executes_round (hm : m.IsLoop ops)
    (hbudget : count + (ops.length + 3) ≤ m.maxSteps)
    (heval : evaluateFrom 0 ops cells x = .ok (cells', y)) (xs sent : List Int) :
    Executes (ops.length + 3) { m with state := .waiting count (x :: xs) sent cells }
      { m with state := .waiting (count + (ops.length + 3)) xs (y :: sent) cells' } := by
  obtain ⟨htake, henters⟩ := hm.step_of_item hbudget x xs sent cells
  obtain ⟨hbody, hrest⟩ := henters.executes hm.isLocal rfl heval
  let s := { State.waiting count xs sent cells with accumulator := some x }.advance
  let t := s.past ops.length cells' y
  have hsend : t.perform m.program .outbox = .ok (t.send y).advance := rfl
  have hjump : (t.send y).advance.perform m.program (.jump "loop") =
      .ok (.waiting (count + (ops.length + 3)) xs (y :: sent) cells') := by
    have hcount : count + 1 + ops.length + 1 + 1 = count + (ops.length + 3) := by omega
    rw [State.perform, State.jump, hm.label, ← hcount]
    rfl
  have hlast := hrest.next hsend rfl
  exact .step htake (hbody.trans (.step (hrest.step hsend) (.step (hlast.step hjump) .refl)))

/-- Why the loop goes around no more with these items left: there are none, or a result cannot be
held on the first of them. -/
inductive Ends (ops : List Op) (cells : Memory) : List Int → Except Overflow Memory → Prop
  | done : Ends ops cells [] (.ok cells)
  | overflow {x xs e} : evaluateFrom 0 ops cells x = .error e → Ends ops cells (x :: xs) (.error e)

/-- The loop goes around once for each result. -/
theorem IsLoop.executes_stream (hm : m.IsLoop ops)
    (hbudget : count + (ops.length + 3) * xs.length ≤ m.maxSteps) (sent : List Int)
    (cells : Memory) :
    let out := stream ops cells xs
    let k := (ops.length + 3) * out.results.length
    ∃ left cells', out.results.length + left.length = xs.length ∧ Ends ops cells' left out.ending ∧
      Executes k { m with state := .waiting count xs sent cells }
        { m with state := .waiting (count + k) left (out.results.reverse ++ sent) cells' } := by
  -- by induction on the items, each round starting with the cells and results of the one before
  induction xs generalizing count sent cells with
  | nil => exact ⟨[], cells, rfl, .done, .refl⟩
  | cons x xs ih =>
    rw [List.length_cons, Nat.mul_succ] at hbudget
    rw [stream]
    split
    · next e heval => exact ⟨x :: xs, cells, Nat.zero_add _, .overflow heval, .refl⟩
    · next cells₁ y heval =>
      have hfirst : count + (ops.length + 3) ≤ m.maxSteps := by omega
      have hround := hm.executes_round hfirst heval xs sent
      have hlater : count + (ops.length + 3) + (ops.length + 3) * xs.length ≤ m.maxSteps := by omega
      obtain ⟨left, cells', hleft, hends, hrest⟩ := ih hlater (y :: sent) cells₁
      refine ⟨left, cells', ?_, hends, ?_⟩
      · simp only [List.length_cons]
        omega
      · have hall := hround.trans hrest
        simp only [List.length_cons, Nat.mul_succ, List.reverse_cons, List.append_assoc]
        simp only [Nat.add_assoc, Nat.add_comm] at hall ⊢
        exact hall

variable {k : Nat}

/-- A run that has come to the end of the items ends where it asks for one more. -/
theorem IsLoop.run_of_done (hm : m.IsLoop ops) (hbelow : count < m.maxSteps)
    (h : Executes k m { m with state := .waiting count [] sent cells }) :
    m.run = (.ok false,
      { m with state := { State.waiting count [] sent cells with halt := some .inboxEmpty } }) := by
  let t : Machine := { m with state := .waiting count [] sent cells }
  obtain ⟨hcurrent, -⟩ := hm.code
  obtain ⟨i, hi, hop⟩ := Option.map_eq_some_iff.mp hcurrent
  have hexecuting : t.Executing i := ⟨rfl, hbelow, hi⟩
  have hperform : t.state.perform t.program i.op = .error .inboxEmpty := by
    rw [hop]
    rfl
  have hstep : t.step = (.ok false, t.haltWith .inboxEmpty) :=
    step_of_case (.starved hexecuting hperform)
  exact h.run_eq rfl hbelow hstep nofun

/-- A run that has come to an item on which a result cannot be held ends in the round of that item,
after the item is taken and the operations before are carried out. -/
theorem IsLoop.run_of_overflow (hm : m.IsLoop ops) {e : Overflow}
    (hbudget : count + (ops.length + 3) ≤ m.maxSteps)
    (h : Executes k m { m with state := .waiting count (x :: xs) sent cells })
    (heval : evaluateFrom 0 ops cells x = .error e) :
    ∃ t : Machine, m.run = (.error { e with pc := e.pc + 1 }, t.haltWith .fault) ∧
      t.state.pc = e.pc + 1 ∧ t.state.stepCount = count + 1 + e.pc ∧ t.state.sent = sent := by
  obtain ⟨htake, henters⟩ := hm.step_of_item hbudget x xs sent cells
  obtain ⟨l, t, i, hl, hi, hplace, hpc, hsent, hperform⟩ := henters.overflows hm.isLocal rfl heval
  have hround := Executes.step htake hl
  have hpc' : t.state.pc = e.pc + 1 := by
    change t.state.pc = 0 + 1 + l at hpc
    omega
  have hcount : t.state.stepCount = count + 1 + e.pc := by
    have hcount := hround.stepCount_eq
    change t.state.stepCount = count + (l + 1) at hcount
    omega
  rw [hpc'] at hperform
  have hstep : t.step = (.error { e with pc := e.pc + 1 }, t.haltWith .fault) :=
    step_of_case (.faulted hi hperform)
  have hrun := (h.trans hround).run_eq hi.running hi.below hstep nofun
  exact ⟨t, hrun, hpc', hcount, hsent⟩

end Machine

section Installed

variable (body : List (Option Label × Op))

theorem instructions_streamLoop :
    (Program.ofList (streamLoop body)).instructions = streamLoop body := by
  apply Program.ofList_of_position
  intro a i hi
  rw [streamLoop, List.getElem?_mapIdx] at hi
  obtain ⟨b, -, rfl⟩ := Option.map_eq_some_iff.mp hi
  rfl

theorem ops_streamLoop : (streamLoop body).map (·.op) = loopOps (body.map (·.2)) := by
  have hops : (streamLoop body).map (·.op) = (loopBlocks body).map (·.2) := by
    apply List.ext_getElem?
    intro a
    rw [List.getElem?_map, List.getElem?_map, streamLoop, List.getElem?_mapIdx, Option.map_map]
    rfl
  rw [hops, loopBlocks, List.map_cons, List.map_append]
  rfl

/-- The jump leads to the first block, whatever labels the body carries. -/
theorem resolve_streamLoop : (Program.ofList (streamLoop body)).resolve "loop" = some 0 := by
  rw [Program.resolve_eq_findIdx?, instructions_streamLoop, streamLoop, loopBlocks,
    List.mapIdx_cons, List.findIdx?_cons]
  rfl

theorem isLoop_fresh (hbody : ∀ b ∈ body, b.2.isLocal = true) (n : Nat) (xs : List Int) :
    (Machine.fresh (.ofList (streamLoop body)) n xs).IsLoop (body.map (·.2)) where
  code := by
    apply Program.hasAt_of_drop
    change ((Program.ofList (streamLoop body)).instructions.map (·.op)).drop 0 = _
    rw [instructions_streamLoop, ops_streamLoop, List.drop_zero]
  label := resolve_streamLoop body
  isLocal := List.forall_mem_map.mpr hbody

end Installed

namespace Machine

/-- A loop around operations that work on the number at hand and on the cells puts out what they come
to on each item, and ends when there are no more items, with the cells as the last one has left them,
or at the first result that cannot be held. -/
theorem loop_streams_its_body (body : List (Option Label × Op))
    (hbody : ∀ b ∈ body, b.2.isLocal = true) (xs : List Int) (n : Nat)
    (hn : (body.length + 3) * xs.length < n) :
    let r := (fresh (.ofList (streamLoop body)) n xs).run
    let out := stream (body.map (·.2)) .empty xs
    r.2.state.outbox = out.results ∧
      (∀ cells, out.ending = .ok cells →
        r.1 = .ok false ∧ r.2.state.halt = some .inboxEmpty ∧ r.2.state.pc = 0 ∧
          r.2.state.stepCount = (body.length + 3) * xs.length ∧
          r.2.state.accumulator = none ∧ r.2.state.memory = cells) ∧
      ∀ e, out.ending = .error e →
        r.1 = .error { e with pc := e.pc + 1 } ∧ r.2.state.halt = some .fault ∧
          r.2.state.pc = e.pc + 1 ∧
          r.2.state.stepCount = (body.length + 3) * out.results.length + 1 + e.pc := by
  intro r out
  let m := fresh (.ofList (streamLoop body)) n xs
  let rounds := (body.length + 3) * out.results.length
  have hm : m.IsLoop (body.map (·.2)) := isLoop_fresh body hbody n xs
  have hlength : (body.map (·.2)).length = body.length := List.length_map _
  obtain ⟨left, cells, hleft, hends, hrounds⟩ : ∃ left cells,
      out.results.length + left.length = xs.length ∧
      Ends (body.map (·.2)) cells left out.ending ∧
      Executes rounds m { m with state := .waiting rounds left out.results.reverse cells } := by
    have hall : 0 + ((body.map (·.2)).length + 3) * xs.length ≤ n := by
      rw [hlength]
      omega
    have hstream := hm.executes_stream hall [] .empty
    simp only [hlength, Nat.zero_add, List.append_nil] at hstream
    exact hstream
  generalize out.ending = ending at hends ⊢
  cases hends with
  | done =>
    have hitems : out.results.length = xs.length := hleft
    have hbelow : rounds < n := by
      change (body.length + 3) * out.results.length < n
      rwa [hitems]
    have hr : r = _ := hm.run_of_done hbelow hrounds
    rw [hr]
    refine ⟨List.reverse_reverse _, ?_, nofun⟩
    rintro _ ⟨⟩
    exact ⟨rfl, rfl, rfl, congrArg _ hitems, rfl, rfl⟩
  | @overflow x rest e heval =>
    have hbudget : rounds + ((body.map (·.2)).length + 3) ≤ n := by
      rw [List.length_cons] at hleft
      calc rounds + ((body.map (·.2)).length + 3)
        _ = (body.length + 3) * (out.results.length + 1) := by rw [hlength, Nat.mul_succ]
        _ ≤ (body.length + 3) * xs.length := Nat.mul_le_mul_left _ (by omega)
        _ ≤ n := Nat.le_of_lt hn
    obtain ⟨t, hrun, hpc, hcount, hsent⟩ := hm.run_of_overflow hbudget hrounds heval
    have hr : r = _ := hrun
    rw [hr]
    refine ⟨?_, nofun, ?_⟩
    · change t.state.sent.reverse = _
      rw [hsent, List.reverse_reverse]
    · rintro _ ⟨⟩
      exact ⟨rfl, rfl, hpc, hcount⟩

/-- The body adds the item to a cell, in which the sum is kept for the next item. One of its blocks
carries the label of the loop. The third of the sums is too large. -/
theorem running_sums_until_one_is_too_large :
    let body : List (Option Label × Op) :=
      [(some "", .unconfigured .jump), (some "loop", .add 4), (none, .copyTo 4)]
    let r := (fresh (.ofList (streamLoop body)) 19 [9223372036854775800, 7, 5]).run
    r.1 = .error ⟨.add, 2, 5, 9223372036854775807⟩ ∧ r.2.state.halt = some .fault ∧
      r.2.state.pc = 2 ∧ r.2.state.stepCount = 14 ∧
      r.2.state.outbox = [9223372036854775800, 9223372036854775807] := by
  intro body r
  let xs : List Int := [9223372036854775800, 7, 5]
  obtain ⟨houtbox, -, herror⟩ :=
    loop_streams_its_body body (by decide) xs 19 (by decide)
  have hending : (stream (body.map (·.2)) .empty xs).ending =
      .error ⟨.add, 1, 5, 9223372036854775807⟩ := by decide +kernel
  have hresults : (stream (body.map (·.2)) .empty xs).results =
      [9223372036854775800, 9223372036854775807] := by decide +kernel
  obtain ⟨hanswer, hhalt, hpc, hcount⟩ := herror _ hending
  rw [hresults] at houtbox hcount
  exact ⟨hanswer, hhalt, hpc, hcount, houtbox⟩

end Machine

end BlockMachine
