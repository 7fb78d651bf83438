import BlockMachine.Proofs.Source.Acceptance
import BlockMachine.Source.Compile

namespace BlockMachine

open Source

namespace Op

def argument? : Op → Option Operand
  | copyTo c | copyFrom c | add c | sub c => some (.cell c)
  | jump l | jumpIfZero l | jumpIfNegative l => some (.name l)
  | inbox | outbox | unconfigured _ => none

def IsPlaceable (op : Op) : Prop := op ≠ unconfigured .inbox ∧ op ≠ unconfigured .outbox

/-- Only an opcode that needs an operand is ever left without one. -/
theorem isPlaceable_ofParts (o : Opcode) (cell : Option Nat) (target : Option Label) :
    (ofParts o cell target).IsPlaceable := by
  unfold ofParts
  split <;> simp_all [IsPlaceable]

theorem argument?_ofParts_none (o : Opcode) : (ofParts o none none).argument? = none := by
  cases o <;> rfl

theorem argument?_ofParts_cell {o : Opcode} (h : o.takesCell = true) (c : Nat) :
    (ofParts o (some c) none).argument? = some (.cell c) := by
  cases o with
  | copyTo | copyFrom | add | sub => rfl
  | _ => cases h

theorem argument?_ofParts_name {o : Opcode} (h : o.takesLabel = true) {l : Label} (hl : l ≠ "") :
    (ofParts o none (some l)).argument? = some (.name l) := by
  have hf : Option.filter (· ≠ "") (some l) = some l := by simpa using hl
  cases o with
  | jump | jumpIfZero | jumpIfNegative => simp only [ofParts, hf, argument?]
  | _ => cases h

end Op

def Instruction.content (b : Instruction) : Content := (b.label, b.op.opcode, b.op.argument?)

namespace Source

/-- The statement can be told from the operation that was made of it. -/
theorem op_of_ok {s : Statement} {op : Op} (hs : s.operand ≠ some (.name ""))
    (h : s.op = .ok op) :
    s.opcode = op.opcode ∧ s.operand = op.argument? ∧ op.IsPlaceable := by
  rw [Statement.op] at h
  split at h
  · next ha =>
    cases h
    rw [ha, Op.argument?_ofParts_none, Op.opcode_ofParts]
    exact ⟨rfl, rfl, Op.isPlaceable_ofParts ..⟩
  · next c ha =>
    split at h
    · next hc =>
      cases h
      rw [ha, Op.argument?_ofParts_cell hc, Op.opcode_ofParts]
      exact ⟨rfl, rfl, Op.isPlaceable_ofParts ..⟩
    · split at h <;> cases h
  · next l ha =>
    split at h
    · next hl =>
      have hne : l ≠ "" := by
        intro hl
        subst hl
        exact hs ha
      cases h
      rw [ha, Op.argument?_ofParts_name hl hne, Op.opcode_ofParts]
      exact ⟨rfl, rfl, Op.isPlaceable_ofParts ..⟩
    · split at h <;> cases h

/-- Every operation that a block can have is made of some statement. -/
theorem ok_of_op {s : Statement} {op : Op} (hs : s.operand ≠ some (.name ""))
    (ho : s.opcode = op.opcode) (ha : s.operand = op.argument?) (hop : op.IsPlaceable) :
    s.op = .ok op := by
  rw [ha] at hs
  rw [Statement.op, ho, ha]
  cases op with
  | inbox | outbox | copyTo | copyFrom | add | sub => rfl
  | jump l | jumpIfZero l | jumpIfNegative l =>
    have hf : Option.filter (· ≠ "") (some l) = some l := by simpa [Op.argument?] using hs
    simp only [Op.argument?, Op.opcode, Opcode.takesLabel, Op.ofParts, hf, if_true]
  | unconfigured o =>
    cases o with
    | inbox => exact absurd rfl hop.1
    | outbox => exact absurd rfl hop.2
    | copyTo | copyFrom | add | sub | jump | jumpIfZero | jumpIfNegative => rfl

def PlacedFrom (n : Nat) (blocks : List Instruction) : Prop :=
  ∀ i b, blocks[i]? = some b → b.position = n + i

theorem placedFrom_cons {n : Nat} {b : Instruction} {blocks : List Instruction} :
    PlacedFrom n (b :: blocks) ↔ b.position = n ∧ PlacedFrom (n + 1) blocks := by
  constructor
  · intro h
    refine ⟨h 0 b rfl, ?_⟩
    intro i c hc
    have hposition : c.position = n + (i + 1) := h (i + 1) c hc
    omega
  · intro h i c hc
    obtain ⟨hb, hblocks⟩ := h
    cases i with
    | zero =>
      cases hc
      exact hb
    | succ i =>
      have hposition : c.position = n + 1 + i := hblocks i c hc
      omega

/-- The block of a statement says what the statement says and stands where it was put. -/
theorem block_eq_ok_iff {s : Statement} {n : Nat} {b : Instruction}
    (hs : s.operand ≠ some (.name "")) :
    s.block n = .ok b ↔ s.content = b.content ∧ b.position = n ∧ b.op.IsPlaceable := by
  rw [Statement.block, Statement.content, Instruction.content]
  constructor
  · intro h
    split at h
    · next op hop =>
      cases h
      obtain ⟨ho, ha, hp⟩ := op_of_ok hs hop
      exact ⟨by rw [ho, ha], rfl, hp⟩
    · cases h
  · intro h
    obtain ⟨hc, rfl, hp⟩ := h
    obtain ⟨hl, ho, ha⟩ :
        s.label = b.label ∧ s.opcode = b.op.opcode ∧ s.operand = b.op.argument? := by
      simpa using hc
    rw [ok_of_op hs ho ha hp, hl]

theorem blocksFrom_cons_iff {n : Nat} {s : Statement} {ss : List Statement}
    {q : List Instruction} :
    blocksFrom n (s :: ss) = (q, []) ↔
      ∃ b q', q = b :: q' ∧ s.block n = .ok b ∧ blocksFrom (n + 1) ss = (q', []) := by
  rw [blocksFrom]
  obtain ⟨blocks, errors⟩ := blocksFrom (n + 1) ss
  cases s.block n with
  | error e => simp
  | ok b =>
    constructor
    · intro h
      cases h
      exact ⟨b, blocks, rfl, rfl, rfl⟩
    · intro h
      obtain ⟨b', q', rfl, hb, hq⟩ := h
      cases hb
      cases hq
      rfl

theorem blocksFrom_eq_iff {n : Nat} {ss : List Statement} {q : List Instruction}
    (hs : ∀ s ∈ ss, s.operand ≠ some (.name "")) :
    blocksFrom n ss = (q, []) ↔ ss.map Statement.content = q.map Instruction.content ∧
      PlacedFrom n q ∧ ∀ b ∈ q, b.op.IsPlaceable := by
  induction ss generalizing n q with
  | nil =>
    cases q with
    | nil => simp [blocksFrom, PlacedFrom]
    | cons b q => simp [blocksFrom]
  | cons s ss ih =>
    obtain ⟨hs, hss⟩ := List.forall_mem_cons.mp hs
    rw [blocksFrom_cons_iff]
    cases q with
    | nil => simp
    | cons b q =>
      rw [placedFrom_cons, List.forall_mem_cons, List.map_cons, List.map_cons, List.cons_eq_cons]
      constructor
      · intro h
        obtain ⟨b', q', hq, hb, hrest⟩ := h
        cases hq
        obtain ⟨hc, hn, hp⟩ := (block_eq_ok_iff hs).mp hb
        obtain ⟨hcs, hns, hps⟩ := (ih hss).mp hrest
        exact ⟨⟨hc, hcs⟩, ⟨hn, hns⟩, hp, hps⟩
      · intro h
        obtain ⟨⟨hc, hcs⟩, ⟨hn, hns⟩, hp, hps⟩ := h
        have hb := (block_eq_ok_iff hs).mpr ⟨hc, hn, hp⟩
        have hrest := (ih hss).mpr ⟨hcs, hns, hps⟩
        exact ⟨b, q, rfl, hb, hrest⟩

/-- A program is assembled from just those statements that say what its blocks say. -/
theorem assemble_eq_ok_iff {ss : List Statement} {q : List Instruction}
    (hs : ∀ s ∈ ss, s.operand ≠ some (.name "")) :
    assemble ss = .ok q ↔ ss.map Statement.content = q.map Instruction.content ∧
      PlacedFrom 0 q ∧ ∀ b ∈ q, b.op.IsPlaceable := by
  rw [← blocksFrom_eq_iff hs, assemble]
  split
  · next blocks h => simp [h]
  · next blocks errors hne h =>
    rw [h]
    simpa using fun _ => hne

structure Content.IsWritable (t : Content) : Prop where
  label : ∀ l ∈ t.1, IsName l.toList
  name : ∀ l, t.2.2 = some (.name l) → IsName l.toList
  cell : ∀ c, t.2.2 = some (.cell c) → c < cellBound

theorem StatementText.isWritable {t : Content} {st rest : List Char}
    (h : StatementText rest t st) : t.IsWritable := by
  obtain ⟨hl, hbt⟩ := h
  obtain ⟨-, -, -, ht⟩ := hbt
  constructor
  · intro l hlabel
    cases hlabel
    cases hl with
    | present hn => simpa using hn
  · intro l hname
    cases hname
    cases ht with
    | name _ hn => simpa using hn
  · intro c hcell
    cases hcell
    cases ht with
    | cell _ _ hlt => exact hlt

/-- What a text says can be written as a text. -/
theorem Cut.isWritable {ts : List Content} {cs : List Char} (h : Cut ts cs) :
    ∀ t ∈ ts, t.IsWritable := by
  induction h with
  | done =>
    intro t ht
    cases ht
  | statement _ hs _ ih => exact List.forall_mem_cons.mpr ⟨hs.isWritable, ih⟩

theorem compile_eq_ok {source : String} {q : List Instruction} :
    compile source = .ok q ↔ ∃ ss, parse source = .ok ss ∧ assemble ss = .ok q := by
  rw [compile]
  cases parse source with
  | error e => simp [Except.mapError, bind, Except.bind]
  | ok ss =>
    cases h : assemble ss with
    | error e => simp [Except.mapError, bind, Except.bind, h]
    | ok q' => simp [Except.mapError, bind, Except.bind, h]

/-- The programs that come out of a text. -/
theorem compile_eq_ok_iff (source : String) (q : List Instruction) :
    compile source = .ok q ↔ Cut (q.map Instruction.content) source.toList ∧
      PlacedFrom 0 q ∧ ∀ b ∈ q, b.op.IsPlaceable := by
  -- no statement of a text has the empty name as its operand
  have hne {ss : List Statement} (hcut : Cut (ss.map Statement.content) source.toList) :
      ∀ s ∈ ss, s.operand ≠ some (.name "") := by
    intro s hs ha
    exact ((hcut.isWritable s.content (List.mem_map_of_mem hs)).name "" ha).1.elim
  rw [compile_eq_ok]
  constructor
  · intro h
    obtain ⟨ss, hss, hq⟩ := h
    have hcut := (parse_eq_ok_iff_cut source _).mp ⟨ss, hss, rfl⟩
    obtain ⟨hc, hrest⟩ := (assemble_eq_ok_iff (hne hcut)).mp hq
    exact ⟨hc ▸ hcut, hrest⟩
  · intro h
    obtain ⟨hcut, hrest⟩ := h
    obtain ⟨ss, hss, hc⟩ := (parse_eq_ok_iff_cut source _).mpr hcut
    rw [← hc] at hcut
    have hq := (assemble_eq_ok_iff (hne hcut)).mpr ⟨hc, hrest⟩
    exact ⟨ss, hss, hq⟩

end Source

end BlockMachine
