import BlockMachine.Proofs.Source.Assembly

namespace BlockMachine

open Source Text

structure Instruction.IsWritable (b : Instruction) : Prop where
  label : ∀ l ∈ b.label, IsName l.toList
  target : ∀ l ∈ b.op.target?, IsName l.toList
  cell : ∀ c ∈ b.op.cell?, c < cellBound
  placeable : b.op ≠ .unconfigured .inbox ∧ b.op ≠ .unconfigured .outbox

namespace Source

structure WellFormed (blocks : List Instruction) : Prop where
  position : ∀ i (b : Instruction), blocks[i]? = some b → b.position = i
  writable : ∀ b ∈ blocks, b.IsWritable

theorem argument?_eq_name {op : Op} {l : Label} :
    op.argument? = some (.name l) ↔ l ∈ op.target? := by
  cases op <;> simp [Op.argument?, Op.target?]

theorem argument?_eq_cell {op : Op} {c : Nat} :
    op.argument? = some (.cell c) ↔ c ∈ op.cell? := by
  cases op <;> simp [Op.argument?, Op.cell?]

theorem isWritable_iff {b : Instruction} :
    b.IsWritable ↔ b.content.IsWritable ∧ b.op.IsPlaceable := by
  constructor
  · intro h
    have hname : ∀ l, b.op.argument? = some (.name l) → IsName l.toList :=
      fun l hl => h.target l (argument?_eq_name.mp hl)
    have hcell : ∀ c, b.op.argument? = some (.cell c) → c < cellBound :=
      fun c hc => h.cell c (argument?_eq_cell.mp hc)
    exact ⟨⟨h.label, hname, hcell⟩, h.placeable⟩
  · intro h
    obtain ⟨hcontent, hplaceable⟩ := h
    have htarget : ∀ l ∈ b.op.target?, IsName l.toList :=
      fun l hl => hcontent.name l (argument?_eq_name.mpr hl)
    have hcell : ∀ c ∈ b.op.cell?, c < cellBound :=
      fun c hc => hcontent.cell c (argument?_eq_cell.mpr hc)
    exact ⟨hcontent.label, htarget, hcell, hplaceable⟩

/-- No number but 0 is written with a 0 in front. -/
theorem head?_toDigits_ne_zero {n : Nat} (h : n ≠ 0) : (Nat.toDigits 10 n).head? ≠ some '0' := by
  induction n using Nat.strongRecOn with
  | ind n ih =>
    by_cases hn : n < 10
    · have hdigit : ∀ d < 10, d ≠ 0 → d.digitChar ≠ '0' := by decide
      simpa [Nat.toDigits_of_lt_base hn] using hdigit n hn h
    · rw [Nat.toDigits_of_base_le (by omega) (by omega),
        List.head?_append_of_ne_nil _ Nat.toDigits_ne_nil]
      exact ih (n / 10) (by omega) (by omega)

/-- A number is written as a numeral that stands for it. -/
theorem numeral_toDigits (n : Nat) : Numeral (Nat.toDigits 10 n) n := by
  by_cases h : n = 0
  · subst h
    exact .zero
  · have hdigits : ∀ d ∈ Nat.toDigits 10 n, d.isDigit = true :=
      fun d hd => Nat.isDigit_of_mem_toDigits (by omega) (by omega) hd
    have hvalue : Nat.ofDigitChars 10 (Nat.toDigits 10 n) 0 = n := Nat.ofDigitChars_ten_toDigits
    have hhead := head?_toDigits_ne_zero h
    obtain ⟨c, ds, hc⟩ := List.exists_cons_of_ne_nil (Nat.toDigits_ne_nil (n := n) (b := 10))
    rw [hc] at hdigits hvalue hhead ⊢
    obtain ⟨hd, hds⟩ := List.forall_mem_cons.mp hdigits
    have hzero : c ≠ '0' := by simpa using hhead
    have hnumeral := Numeral.digits hd hzero hds
    rw [hvalue] at hnumeral
    exact hnumeral

theorem blanks_replicate (n : Nat) : Blanks (List.replicate n ' ') := by
  intro c hc
  rw [List.eq_of_mem_replicate hc]
  decide

def EndsLine (rest : List Char) : Prop := ∀ c ∈ rest.head?, c = '\n'

theorem EndsLine.endsWord {rest : List Char} (h : EndsLine rest) : EndsWord rest := by
  intro c hc
  rw [h c hc]
  decide

def Operand.letters : Operand → List Char
  | .cell c => Nat.toDigits 10 c
  | .name l => l.toList

theorem toList_text (op : Op) : op.text.toList =
    op.opcode.name.toList ++ op.argument?.elim [] fun a => ' ' :: a.letters := by
  cases op <;> simp [Op.text, Op.operand?, Op.opcode, Op.argument?, Operand.letters]

theorem operandText_letters {t : Content} {a : Operand} {rest : List Char} (ht : t.IsWritable)
    (ha : t.2.2 = some a) (hrest : EndsLine rest) :
    OperandText rest (some a) (' ' :: a.letters) := by
  have hblank : Blanks [' '] := blanks_replicate 1
  cases a with
  | cell c =>
    have hcell : OperandText rest (some (.cell c)) ([' '] ++ (Nat.toDigits 10 c ++ [])) :=
      .cell hblank (numeral_toDigits c) (ht.cell c ha) blanks_nil
    simpa [Operand.letters] using hcell
  | name l =>
    have hend : EndsWord ([] ++ rest) := hrest.endsWord
    simpa [Operand.letters] using OperandText.name hblank (ht.name l ha) hend blanks_nil

/-- An operation is written as the grammar has it. -/
theorem blockText_op {b : Instruction} {rest : List Char} (hb : b.content.IsWritable)
    (hrest : EndsLine rest) : BlockText rest b.op.opcode b.op.argument? b.op.text.toList := by
  rw [toList_text]
  cases ha : b.op.argument? with
  | none => exact .intro (isIdentifier_name _) (spells_name _) hrest.endsWord .absent
  | some a =>
    refine .intro (isIdentifier_name _) (spells_name _) ?_ (operandText_letters hb ha hrest)
    exact endsWord_cons.mpr (by decide)

/-- Before the operation there is the label and then nothing but spaces. -/
theorem toList_line (width : Nat) (b : Instruction) : ∃ n, (line width b).toList =
    (labelText b.label).toList ++ (List.replicate n ' ' ++ b.op.text.toList) := by
  refine ⟨width - (labelText b.label).length, ?_⟩
  rw [line, String.toList_append, toList_padRight, List.append_assoc]

/-- A line can stand before every cut text that does not go on with its last word. -/
theorem cut_line (width : Nat) {b : Instruction} {rest : List Char} {ts : List Content}
    (hb : b.content.IsWritable) (hrest : EndsLine rest) (hcut : Cut ts rest) :
    Cut (b.content :: ts) ((line width b).toList ++ rest) := by
  have hbt := blockText_op hb hrest
  obtain ⟨n, hline⟩ := toList_line width b
  cases hl : b.label with
  | none =>
    have hst : StatementText rest b.content ([] ++ b.op.text.toList) := by
      rw [Instruction.content, hl]
      exact .intro .absent hbt
    have hcut' := Cut.statement (gap_of_blanks (blanks_replicate n) _) hst hcut
    rw [hline, hl, labelText]
    simpa using hcut'
  | some l =>
    have hst : StatementText rest b.content
        (l.toList ++ ':' :: List.replicate (n + 1) ' ' ++ b.op.text.toList) := by
      have hlt := LabelText.present (hb.label l hl) (endsWord_colon _) (blanks_replicate (n + 1))
      rw [Instruction.content, hl]
      rw [String.ofList_toList] at hlt
      exact .intro hlt hbt
    have hcut' := Cut.of_statement hst hcut
    rw [hline, hl, labelText]
    simpa [List.replicate_succ] using hcut'

/-- The lines of the blocks are a cut that says what the blocks say. -/
theorem cut_lines (width : Nat) {blocks : List Instruction}
    (h : ∀ b ∈ blocks, b.content.IsWritable) : Cut (blocks.map Instruction.content)
      (String.intercalate "\n" (blocks.map (line width))).toList := by
  induction blocks with
  | nil => exact .done .nil
  | cons b blocks ih =>
    obtain ⟨hb, hblocks⟩ := List.forall_mem_cons.mp h
    have hrest := ih hblocks
    cases blocks with
    | nil =>
      have hend : EndsLine [] := by simp [EndsLine]
      simpa using cut_line width hb hend (.done .nil)
    | cons b' blocks =>
      have hnewline : isBlank '\n' = true := by decide
      have hcut := cut_line width hb (by simp [EndsLine]) (hrest.blank hnewline)
      simp only [List.map_cons, String.intercalate_cons_cons, String.toList_append,
        List.append_assoc] at hcut ⊢
      exact hcut

/-- A well-formed program comes back from its listing. -/
theorem compile_listing {blocks : List Instruction} (h : WellFormed blocks) :
    compile (listing blocks) = .ok blocks := by
  have hwritable : ∀ b ∈ blocks, b.content.IsWritable := by
    intro b hb
    exact (isWritable_iff.mp (h.writable b hb)).1
  apply (compile_eq_ok_iff _ _).mpr
  refine ⟨cut_lines _ hwritable, ?_, ?_⟩
  · intro i b hb
    rw [h.position i b hb, Nat.zero_add]
  · intro b hb
    exact (h.writable b hb).placeable

/-- Whatever text it comes out of, a program is well formed. -/
theorem wellFormed_of_compile {source : String} {blocks : List Instruction}
    (h : compile source = .ok blocks) : WellFormed blocks := by
  obtain ⟨hcut, hplaced, hplaceable⟩ := (compile_eq_ok_iff source blocks).mp h
  constructor
  · intro i b hb
    rw [hplaced i b hb, Nat.zero_add]
  · intro b hb
    have hcontent := hcut.isWritable b.content (List.mem_map_of_mem hb)
    exact isWritable_iff.mpr ⟨hcontent, hplaceable b hb⟩

theorem readsBack_iff {blocks : List Instruction} :
    readsBack blocks = true ↔ WellFormed blocks := by
  constructor
  · intro h
    rw [readsBack] at h
    split at h
    · next again hagain =>
      rw [eq_of_beq h] at hagain
      exact wellFormed_of_compile hagain
    · cases h
  · intro h
    rw [readsBack, compile_listing h]
    exact beq_self_eq_true blocks

instance : DecidablePred WellFormed := fun _ => decidable_of_iff _ readsBack_iff

example : ¬WellFormed [⟨0, .jump "a b", none⟩, ⟨1, .outbox, some "add"⟩] := by decide +kernel

/-- Just the well-formed programs come back from their listings, and every program that comes out
of a text is one of them. -/
theorem listing_reads_back_iff_wellFormed (blocks : List Instruction) :
    (compile (listing blocks) = .ok blocks ↔ WellFormed blocks) ∧
    ∀ source result, compile source = .ok result →
      WellFormed result ∧ compile (listing result) = .ok result := by
  refine ⟨⟨wellFormed_of_compile, compile_listing⟩, ?_⟩
  intro source result h
  have hwf := wellFormed_of_compile h
  exact ⟨hwf, compile_listing hwf⟩

/-- A label beyond ASCII, the last cell, and a jump without its target before a labelled block. -/
theorem accented_loop_reads_back :
    let source := "é: inbox # read\nADD 18446744073709551615jump\nx_2: Jump é"
    let blocks : List Instruction := [⟨0, .inbox, some "é"⟩, ⟨1, .add 18446744073709551615, none⟩,
      ⟨2, .unconfigured .jump, none⟩, ⟨3, .jump "é", some "x_2"⟩]
    compile source = .ok blocks ∧ WellFormed blocks ∧ compile (listing blocks) = .ok blocks := by
  intro source blocks
  have h : compile source = .ok blocks := by decide +kernel
  exact ⟨h, (listing_reads_back_iff_wellFormed blocks).2 source blocks h⟩

end Source

end BlockMachine
