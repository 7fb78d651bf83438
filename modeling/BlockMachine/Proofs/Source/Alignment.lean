import Mathlib.Data.List.Forall2
import BlockMachine.Proofs.Source.ReadBack

namespace BlockMachine.Source

open Text

inductive LabelColumn : Option Label → String → Prop
  | labelled (l : Label) (n : Nat) :
      LabelColumn (some l) (l ++ ": " ++ String.ofList (List.replicate n ' '))
  | unlabelled (n : Nat) : LabelColumn none (String.ofList (List.replicate n ' '))

def Aligned (width : Nat) (b : Instruction) (text : String) : Prop :=
  ∃ column, LabelColumn b.label column ∧ column.length = width ∧ text = column ++ b.op.text

variable {blocks : List Instruction} {b : Instruction} {width : Nat}

/-- No text has more characters than bytes. -/
theorem length_le_utf8ByteSize (text : String) : text.length ≤ text.utf8ByteSize := by
  have hletters (cs : List Char) : cs.length ≤ (String.ofList cs).utf8ByteSize := by
    induction cs with
    | nil => exact Nat.zero_le _
    | cons c cs ih =>
      have hc := c.utf8Size_pos
      rw [List.length_cons, String.ofList_cons, String.utf8ByteSize_append,
        String.utf8ByteSize_singleton]
      omega
  have h := hletters text.toList
  rw [String.length_toList, String.ofList_toList] at h
  exact h

/-- The column is wide enough for every label, since its width is counted in bytes. -/
theorem length_labelText_le (hb : b ∈ blocks) :
    (labelText b.label).length ≤ labelWidth blocks := by
  have hsize : (labelText b.label).utf8ByteSize ∈
      blocks.map fun b => (labelText b.label).utf8ByteSize := List.mem_map_of_mem hb
  calc (labelText b.label).length
    _ ≤ (labelText b.label).utf8ByteSize := length_le_utf8ByteSize _
    _ ≤ labelWidth blocks := by
      rw [labelWidth, List.foldl_max]
      exact Nat.le_trans (List.le_max?_getD_of_mem hsize) (Nat.le_max_right _ _)

theorem labelWidth_of_unlabelled (h : ∀ b ∈ blocks, b.label = none) : labelWidth blocks = 0 := by
  induction blocks with
  | nil => rfl
  | cons b blocks ih =>
    obtain ⟨hb, hblocks⟩ := List.forall_mem_cons.mp h
    rw [labelWidth, List.map_cons, List.foldl_cons, hb]
    exact ih hblocks

theorem labelColumn_padRight (width : Nat) (label : Option Label) :
    LabelColumn label (padRight width (labelText label)) := by
  cases label with
  | none =>
    rw [labelText, padRight, String.empty_append]
    exact .unlabelled _
  | some l => exact .labelled l _

theorem aligned_line (h : (labelText b.label).length ≤ width) : Aligned width b (line width b) := by
  refine ⟨_, labelColumn_padRight width b.label, ?_, rfl⟩
  rw [length_padRight]
  exact Nat.max_eq_left h

theorem newline_notMem_toDigits (n : Nat) : '\n' ∉ Nat.toDigits 10 n := by
  intro hmem
  have hdigit := Nat.isDigit_of_mem_toDigits (by decide) (by decide) hmem
  exact absurd hdigit (by decide)

theorem newline_notMem_letters {a : Operand} (h : ∀ l, a = .name l → '\n' ∉ l.toList) :
    '\n' ∉ a.letters := by
  cases a with
  | cell c => exact newline_notMem_toDigits c
  | name l => exact h l rfl

/-- Of all that is written of an operation, only the target can break. -/
theorem newline_notMem_text {op : Op} (h : ∀ l ∈ op.target?, '\n' ∉ l.toList) :
    '\n' ∉ op.text.toList := by
  have hname (o : Opcode) : '\n' ∉ o.name.toList := by cases o <;> decide
  rw [toList_text]
  cases ha : op.argument? with
  | none => simpa using hname op.opcode
  | some a =>
    have hletters : '\n' ∉ a.letters := by
      apply newline_notMem_letters
      rintro l rfl
      exact h l (argument?_eq_name.mp ha)
    simpa using ⟨hname op.opcode, hletters⟩

/-- A line breaks nowhere if its label and its target do not. -/
theorem newline_notMem_line (hlabel : ∀ l ∈ b.label, '\n' ∉ l.toList)
    (htarget : ∀ l ∈ b.op.target?, '\n' ∉ l.toList) (width : Nat) :
    '\n' ∉ (line width b).toList := by
  have hcolumn : '\n' ∉ (labelText b.label).toList := by
    cases hl : b.label with
    | none => simp [labelText]
    | some l => simpa [labelText] using hlabel l hl
  have htext := newline_notMem_text htarget
  obtain ⟨n, hline⟩ := toList_line width b
  rw [hline]
  simp [hcolumn, htext]

/-- A listing breaks between its lines and nowhere else. -/
theorem split_listing (hne : blocks ≠ [])
    (h : ∀ b ∈ blocks, '\n' ∉ (line (labelWidth blocks) b).toList) :
    (((listing blocks).split '\n').toList.map fun part => part.copy) =
      blocks.map (line (labelWidth blocks)) := by
  have hlines : ∀ text ∈ blocks.map (line (labelWidth blocks)), '\n' ∉ text.toList :=
    List.forall_mem_map.mpr h
  have hsplit := String.toList_split_intercalate hlines
  rw [if_neg (mt List.map_eq_nil_iff.mp hne)] at hsplit
  exact hsplit

/-- There is one width for all lines of a listing. Split where it breaks, the listing has just one
line for each block, with so many characters before the operation, in which the label stands as a
whole; the operation stands behind them as a whole. If no block has a label, the operations stand at
the beginning of their lines. -/
theorem operations_stand_in_one_column {blocks : List Instruction}
    (hlabels : ∀ b ∈ blocks, ∀ l ∈ b.label, '\n' ∉ l.toList)
    (htargets : ∀ b ∈ blocks, ∀ l ∈ b.op.target?, '\n' ∉ l.toList) :
    ∃ width,
      (blocks ≠ [] → List.Forall₂ (Aligned width) blocks
        (((listing blocks).split '\n').toList.map fun part => part.copy)) ∧
      ((∀ b ∈ blocks, b.label = none) → width = 0) ∧
      ∀ b ∈ blocks, ∀ l ∈ b.label, l.length + 2 ≤ width := by
  refine ⟨labelWidth blocks, ?_, labelWidth_of_unlabelled, ?_⟩
  · intro hne
    rw [split_listing hne fun b hb => newline_notMem_line (hlabels b hb) (htargets b hb) _]
    apply List.forall₂_map_right_iff.mpr
    exact List.forall₂_same.mpr fun b hb => aligned_line (length_labelText_le hb)
  · intro b hb l hl
    have hwide := length_labelText_le hb
    rw [hl, labelText, String.length_append] at hwide
    exact hwide

/-- A label with more bytes than characters, a label of spaces and an empty one, a target with a space
in it, and a block without a label: the column is that of the longest label in bytes. -/
theorem wide_column_for_accented_label :
    let blocks : List Instruction := [⟨4, .jump "b c", some "éé"⟩, ⟨4, .unconfigured .add, none⟩,
      ⟨0, .add 18446744073709551615, some ""⟩, ⟨1, .outbox, some "  "⟩]
    let lines := ["éé:   JUMP b c", "      ADD", ":     ADD 18446744073709551615", "  :   OUTBOX"]
    (((listing blocks).split '\n').toList.map fun part => part.copy) = lines ∧
      ∃ width, List.Forall₂ (Aligned width) blocks lines ∧
        ∀ b ∈ blocks, ∀ l ∈ b.label, l.length + 2 ≤ width := by
  intro blocks lines
  have hlines : (((listing blocks).split '\n').toList.map fun part => part.copy) = lines := by
    rw [String.toList_split_char]
    decide +kernel
  have hlabels : ∀ b ∈ blocks, ∀ l ∈ b.label, '\n' ∉ l.toList := by decide
  have htargets : ∀ b ∈ blocks, ∀ l ∈ b.op.target?, '\n' ∉ l.toList := by decide
  obtain ⟨width, haligned, -, hwide⟩ := operations_stand_in_one_column hlabels htargets
  have hsome := haligned (List.cons_ne_nil _ _)
  rw [hlines] at hsome
  exact ⟨hlines, width, hsome, hwide⟩

end BlockMachine.Source
