import BlockMachine.Proofs.Source.Assembly

namespace BlockMachine

/-- An opcode is left without its operand if it needs a cell and has none, or needs a label and has
none but the empty one. -/
theorem Op.exists_unconfigured_iff {o : Opcode} {cell : Option Nat} {target : Option Label} :
    (∃ o', ofParts o cell target = unconfigured o') ↔
      o.takesCell = true ∧ cell = none ∨
        o.takesLabel = true ∧ target.filter (· ≠ "") = none := by
  unfold ofParts
  generalize target.filter (· ≠ "") = t
  cases o with
  | inbox | outbox => simp [Opcode.takesCell, Opcode.takesLabel]
  | copyTo | copyFrom | add | sub => cases cell <;> simp [Opcode.takesCell, Opcode.takesLabel]
  | jump | jumpIfZero | jumpIfNegative => cases t <;> simp [Opcode.takesCell, Opcode.takesLabel]

namespace Source

def Statement.misfit? (s : Statement) : Option BlockError :=
  match s.opcode, s.operand with
  | _, none => none
  | .inbox, some _ | .outbox, some _ => some ⟨.unexpectedOperand s.opcode, s.span⟩
  | .copyTo, some (.name l) | .copyFrom, some (.name l) | .add, some (.name l)
  | .sub, some (.name l) => some ⟨.expectedCell s.opcode l, s.span⟩
  | .jump, some (.cell c) | .jumpIfZero, some (.cell c) | .jumpIfNegative, some (.cell c) =>
    some ⟨.expectedLabel s.opcode c, s.span⟩
  | _, _ => none

structure Statement.Becomes (s : Statement) (position : Nat) (b : Instruction) : Prop where
  position : b.position = position
  label : b.label = s.label
  opcode : b.op.opcode = s.opcode
  /-- An empty name is no operand. -/
  argument : b.op.argument? = s.operand.filter (· ≠ .name "")
  unconfigured : (∃ o, b.op = .unconfigured o) ↔
    (s.opcode.takesCell = true ∨ s.opcode.takesLabel = true) ∧
      (s.operand = none ∨ s.operand = some (.name ""))

structure BecomeFrom (n : Nat) (ss : List Statement) (blocks : List Instruction) : Prop where
  length_eq : blocks.length = ss.length
  each : ∀ (i : Nat) (s : Statement), ss[i]? = some s →
    ∃ b, blocks[i]? = some b ∧ s.Becomes (n + i) b

variable {s : Statement} {ss : List Statement} {n : Nat}

/-- A statement with a misfit has no block, and the misfit is what is said of it. -/
theorem block_of_misfit {e : BlockError} (h : s.misfit? = some e) (n : Nat) :
    s.block n = .error e := by
  obtain ⟨l, o, a, sp⟩ := s
  cases a with
  | none => cases o <;> cases h
  | some a => cases a <;> cases o <;> cases h <;> rfl

theorem takesCell_of_fits {l : Option Label} {o : Opcode} {c : Nat} {sp : Span}
    (h : Statement.misfit? ⟨l, o, some (.cell c), sp⟩ = none) : o.takesCell = true := by
  cases o with
  | copyTo | copyFrom | add | sub => rfl
  | inbox | outbox | jump | jumpIfZero | jumpIfNegative => cases h

theorem takesLabel_of_fits {l : Option Label} {o : Opcode} {target : Label} {sp : Span}
    (h : Statement.misfit? ⟨l, o, some (.name target), sp⟩ = none) : o.takesLabel = true := by
  cases o with
  | jump | jumpIfZero | jumpIfNegative => rfl
  | inbox | outbox | copyTo | copyFrom | add | sub => cases h

theorem takesLabel_eq_false_of_takesCell {o : Opcode} (h : o.takesCell = true) :
    o.takesLabel = false := by
  cases o with
  | copyTo | copyFrom | add | sub => rfl
  | inbox | outbox | jump | jumpIfZero | jumpIfNegative => cases h

/-- The name comes back, unless it is empty. -/
theorem argument?_ofParts_target {o : Opcode} (h : o.takesLabel = true) (target : Label) :
    (Op.ofParts o none (some target)).argument? =
      (some (Operand.name target)).filter (· ≠ .name "") := by
  by_cases hempty : target = ""
  · subst hempty
    cases o with
    | jump | jumpIfZero | jumpIfNegative => rfl
    | inbox | outbox | copyTo | copyFrom | add | sub => cases h
  · have hkept : Operand.name target ≠ .name "" := by simpa using hempty
    rw [Op.argument?_ofParts_name h hempty, Option.filter_some, if_pos (decide_eq_true hkept)]

/-- A statement without a misfit becomes its block, wherever it is put. -/
theorem becomes_of_fits (h : s.misfit? = none) (n : Nat) :
    ∃ b, s.block n = .ok b ∧ s.Becomes n b := by
  obtain ⟨l, o, a, sp⟩ := s
  rcases a with _ | c | target
  · -- any opcode may lack its operand
    refine ⟨⟨n, .ofParts o none none, l⟩, rfl, rfl, rfl, Op.opcode_ofParts .., ?_, ?_⟩
    · exact Op.argument?_ofParts_none o
    · simp [Op.exists_unconfigured_iff]
  · -- an opcode with a cell as its operand takes a cell and hence no label
    have hcell := takesCell_of_fits h
    have hlabel := takesLabel_eq_false_of_takesCell hcell
    refine ⟨⟨n, .ofParts o (some c) none, l⟩, ?_, rfl, rfl, Op.opcode_ofParts .., ?_, ?_⟩
    · simp only [Statement.block, Statement.op, hcell, if_true]
    · exact Op.argument?_ofParts_cell hcell c
    · simp [Op.exists_unconfigured_iff, hlabel]
  · -- an opcode with a name as its operand takes a label and hence no cell
    have hlabel := takesLabel_of_fits h
    have hcell : o.takesCell = false := by
      apply eq_false_of_ne_true
      intro hcell
      rw [takesLabel_eq_false_of_takesCell hcell] at hlabel
      cases hlabel
    refine ⟨⟨n, .ofParts o none (some target), l⟩, ?_, rfl, rfl, Op.opcode_ofParts .., ?_, ?_⟩
    · simp only [Statement.block, Statement.op, hlabel, if_true]
    · exact argument?_ofParts_target hlabel target
    · simp [Op.exists_unconfigured_iff, hlabel, hcell]

/-- The statements are gone through once, and the errors are those of the bad ones among them. -/
theorem errors_blocksFrom (n : Nat) (ss : List Statement) :
    (blocksFrom n ss).2 = ss.filterMap Statement.misfit? := by
  induction ss generalizing n with
  | nil => rfl
  | cons s ss ih =>
    rw [blocksFrom, List.filterMap_cons, ← ih (n + 1)]
    cases h : s.misfit? with
    | none =>
      obtain ⟨b, hb, -⟩ := becomes_of_fits h n
      rw [hb]
    | some e => rw [block_of_misfit h]

theorem BecomeFrom.cons {b : Instruction} {blocks : List Instruction} (hb : s.Becomes n b)
    (h : BecomeFrom (n + 1) ss blocks) : BecomeFrom n (s :: ss) (b :: blocks) := by
  refine ⟨congrArg (· + 1) h.length_eq, ?_⟩
  intro i t ht
  cases i with
  | zero =>
    cases ht
    exact ⟨b, rfl, hb⟩
  | succ i =>
    obtain ⟨c, hc, hbecomes⟩ := h.each i t ht
    rw [Nat.add_right_comm] at hbecomes
    exact ⟨c, hc, hbecomes⟩

theorem blocks_of_fits (h : ∀ s ∈ ss, s.misfit? = none) (n : Nat) :
    ∃ blocks, blocksFrom n ss = (blocks, []) ∧ BecomeFrom n ss blocks := by
  induction ss generalizing n with
  | nil => exact ⟨[], rfl, rfl, by simp⟩
  | cons s ss ih =>
    obtain ⟨hs, hss⟩ := List.forall_mem_cons.mp h
    obtain ⟨b, hb, hbecomes⟩ := becomes_of_fits hs n
    obtain ⟨blocks, hblocks, hall⟩ := ih hss (n + 1)
    have hcons := blocksFrom_cons_iff.mpr ⟨b, blocks, rfl, hb, hblocks⟩
    exact ⟨b :: blocks, hcons, hall.cons hbecomes⟩

theorem assemble_of_fits (h : ∀ s ∈ ss, s.misfit? = none) :
    ∃ blocks, assemble ss = .ok blocks ∧ BecomeFrom 0 ss blocks := by
  obtain ⟨blocks, hblocks, hall⟩ := blocks_of_fits h 0
  exact ⟨blocks, by rw [assemble, hblocks], hall⟩

/-- With one misfit there is no program, and all misfits are reported. -/
theorem assemble_of_misfit (h : ∃ s ∈ ss, s.misfit? ≠ none) :
    assemble ss = .error (ss.filterMap Statement.misfit?) := by
  have herrors := errors_blocksFrom 0 ss
  rw [assemble]
  split
  · next blocks hblocks =>
    rw [hblocks] at herrors
    obtain ⟨s, hs, hmisfit⟩ := h
    exact absurd (List.filterMap_eq_nil_iff.mp herrors.symm s hs) hmisfit
  · next blocks errors _ hblocks =>
    rw [hblocks] at herrors
    rw [← herrors]

/-- Either all statements are assembled or none is. If some of them have an operand that their opcode
cannot use, the result is what is to be said of each of these, in order. If none has, there is one
block for each statement, in its place, which says what the statement says. Hence the statements can be
told from the program, except for where they stood in the text and for empty names. -/
theorem misfits_are_reported_or_all_is_assembled :
    (∀ ss, (∃ s ∈ ss, s.misfit? ≠ none) →
      assemble ss = .error (ss.filterMap Statement.misfit?)) ∧
    (∀ ss, (∀ s ∈ ss, s.misfit? = none) →
      ∃ blocks, assemble ss = .ok blocks ∧ BecomeFrom 0 ss blocks) ∧
    ∀ ss ts blocks, (∀ s ∈ ss ++ ts, s.operand ≠ some (.name "")) →
      assemble ss = .ok blocks → assemble ts = .ok blocks →
        ss.map Statement.content = ts.map Statement.content := by
  refine ⟨fun ss => assemble_of_misfit, fun ss => assemble_of_fits, ?_⟩
  intro ss ts blocks hnames hss hts
  obtain ⟨hssNames, htsNames⟩ := List.forall_mem_append.mp hnames
  have hssContents := ((assemble_eq_ok_iff hssNames).mp hss).1
  have htsContents := ((assemble_eq_ok_iff htsNames).mp hts).1
  exact hssContents.trans htsContents.symm

/-- A cell for a label, an operand on an opcode that takes none, and a label for a cell, among
statements that can be used. Without these three, a jump to the empty name is left without its target;
and two statements are told from their program, wherever they stood. -/
theorem three_misfits_are_reported :
    let named : List Statement :=
      [⟨some "é", .jumpIfZero, some (.name "é"), ⟨0, 18⟩⟩, ⟨none, .add, none, ⟨18, 21⟩⟩]
    let elsewhere : List Statement :=
      [⟨some "é", .jumpIfZero, some (.name "é"), ⟨21, 39⟩⟩, ⟨none, .add, none, ⟨0, 0⟩⟩]
    let empty : Statement := ⟨some "", .jump, some (.name ""), ⟨30, 34⟩⟩
    let bad : List Statement := [⟨none, .jump, some (.cell 3), ⟨40, 46⟩⟩, empty,
      ⟨some "x", .inbox, some (.name ""), ⟨50, 58⟩⟩, ⟨none, .sub, some (.name "é"), ⟨60, 66⟩⟩]
    let p : List Instruction := [⟨0, .jumpIfZero "é", some "é"⟩, ⟨1, .unconfigured .add, none⟩]
    let q : List Instruction := p ++ [⟨2, .unconfigured .jump, some ""⟩]
    assemble (named ++ bad) = .error [⟨.expectedLabel .jump 3, ⟨40, 46⟩⟩,
        ⟨.unexpectedOperand .inbox, ⟨50, 58⟩⟩, ⟨.expectedCell .sub "é", ⟨60, 66⟩⟩] ∧
      (assemble (named ++ [empty]) = .ok q ∧ BecomeFrom 0 (named ++ [empty]) q) ∧
      (assemble named = .ok p ∧ assemble elsewhere = .ok p ∧
        named.map Statement.content = elsewhere.map Statement.content) := by
  intro named elsewhere empty bad p q
  obtain ⟨hreported, hassembled, htold⟩ := misfits_are_reported_or_all_is_assembled
  refine ⟨?_, ?_, ?_⟩
  · apply hreported (named ++ bad)
    exact ⟨⟨none, .jump, some (.cell 3), ⟨40, 46⟩⟩, by decide, by decide⟩
  · obtain ⟨blocks, hblocks, hall⟩ := hassembled (named ++ [empty]) (by decide)
    have hq : assemble (named ++ [empty]) = .ok q := rfl
    cases hq.symm.trans hblocks
    exact ⟨hq, hall⟩
  · have hnamed : assemble named = .ok p := rfl
    have helsewhere : assemble elsewhere = .ok p := rfl
    exact ⟨hnamed, helsewhere, htold named elsewhere p (by decide) hnamed helsewhere⟩

end Source

end BlockMachine
