import BlockMachine.Proofs.Source.ReadBack

namespace BlockMachine.Source

open Text

variable {rest after : List Char}

theorem forall_head?_append {P : Char → Prop} (h : ∀ c ∈ rest.head?, P c)
    (hafter : ∀ c ∈ after.head?, P c) : ∀ c ∈ (rest ++ after).head?, P c := by
  cases rest with
  | nil => exact hafter
  | cons d rest => exact h

theorem EndsWord.append (h : EndsWord rest) (hafter : EndsLine after) : EndsWord (rest ++ after) :=
  forall_head?_append h hafter.endsWord

/-- A gap is still one with a line break behind it, even if a comment ends it. -/
theorem Gap.append {g : List Char} (h : Gap rest g) (hafter : EndsLine after) :
    Gap (rest ++ after) g := by
  induction h with
  | nil => exact .nil
  | blank hb _ ih => exact .blank hb ih
  | @comment t g ht hend _ ih =>
    have hend' := forall_head?_append hend hafter
    rw [List.append_assoc] at hend'
    exact .comment ht hend' ih

theorem OperandText.append {a : Option Operand} {t : List Char} (h : OperandText rest a t)
    (hafter : EndsLine after) : OperandText (rest ++ after) a t := by
  cases h with
  | absent => exact .absent
  | cell hb hn hlt hb' => exact .cell hb hn hlt hb'
  | name hb hn hend hb' =>
    have hend' := hend.append hafter
    rw [List.append_assoc] at hend'
    exact .name hb hn hend' hb'

/-- A statement keeps its letters when a line break follows the text. -/
theorem StatementText.append {t : Content} {st : List Char} (h : StatementText rest t st)
    (hafter : EndsLine after) : StatementText (rest ++ after) t st := by
  obtain ⟨hl, hbt⟩ := h
  obtain ⟨hi, ho, hend, ht⟩ := hbt
  have hend' := hend.append hafter
  rw [List.append_assoc] at hend'
  exact .intro hl (.intro hi ho hend' (ht.append hafter))

theorem Cut.gap {ts : List Content} {g : List Char} (hg : Gap rest g) (h : Cut ts rest) :
    Cut ts (g ++ rest) := by
  induction hg with
  | nil => exact h
  | blank hb _ ih => exact ih.blank hb
  | comment ht hend _ ih =>
    rw [List.cons_append, List.append_assoc]
    exact ih.comment ht hend

/-- A text that starts a line can follow any other. -/
theorem Cut.append {ts us : List Content} {cs : List Char} (h : Cut ts cs) (hus : Cut us after)
    (hafter : EndsLine after) : Cut (ts ++ us) (cs ++ after) := by
  induction h with
  | done hg =>
    have hg' := hg.append hafter
    exact hus.gap hg'
  | @statement g st rest t ts hg hs _ ih =>
    have hg' := hg.append hafter
    rw [List.append_assoc] at hg' ⊢
    rw [List.append_assoc]
    exact .statement hg' (hs.append hafter) ih

/-- The blocks of the second text are placed on from the last one of the first. -/
theorem PlacedFrom.append {p q : List Instruction} (hp : PlacedFrom 0 p) (hq : PlacedFrom 0 q) :
    PlacedFrom 0 (p ++ q.map fun b => { b with position := p.length + b.position }) := by
  intro i b hb
  by_cases hi : i < p.length
  · rw [List.getElem?_append_left hi] at hb
    exact hp i b hb
  · rw [List.getElem?_append_right (Nat.le_of_not_lt hi), List.getElem?_map] at hb
    obtain ⟨c, hc, rfl⟩ := Option.map_eq_some_iff.mp hb
    have hposition : c.position = 0 + (i - p.length) := hq _ c hc
    change p.length + c.position = 0 + i
    omega

/-- Two sources with a line break between them give the blocks of the first and then those of the
second, which go on counting where the first ones end. -/
theorem compile_line_by_line {a b : String} {p q : List Instruction} (ha : compile a = .ok p)
    (hb : compile b = .ok q) : compile (a ++ "\n" ++ b) =
      .ok (p ++ q.map fun i => { i with position := p.length + i.position }) := by
  obtain ⟨hcutA, hplacedA, hplaceableA⟩ := (compile_eq_ok_iff a p).mp ha
  obtain ⟨hcutB, hplacedB, hplaceableB⟩ := (compile_eq_ok_iff b q).mp hb
  have hnewline : isBlank '\n' = true := by decide
  have hcut := hcutA.append (hcutB.blank hnewline) (by simp [EndsLine])
  apply (compile_eq_ok_iff _ _).mpr
  refine ⟨?_, hplacedA.append hplacedB, ?_⟩
  · -- a block says the same at any position
    have hcontents : (q.map fun i => { i with position := p.length + i.position }).map
        Instruction.content = q.map Instruction.content := by
      rw [List.map_map]
      rfl
    rw [List.map_append, hcontents]
    simpa using hcut
  · intro i hi
    rcases List.mem_append.mp hi with hi | hi
    · exact hplaceableA i hi
    · obtain ⟨c, hc, rfl⟩ := List.mem_map.mp hi
      exact hplaceableB c hc

/-- A jump at the end of a text lacks its target; the word that comes next, on the following line, is
a label. -/
theorem jump_does_not_reach_the_next_line :
    let a := "é: inbox # é\nJUMP "
    let b := "x: OUTBOX jump x # x"
    let p : List Instruction := [⟨0, .inbox, some "é"⟩, ⟨1, .unconfigured .jump, none⟩]
    let q : List Instruction := [⟨0, .outbox, some "x"⟩, ⟨1, .jump "x", none⟩]
    compile a = .ok p ∧ compile b = .ok q ∧ compile (a ++ "\n" ++ b) =
      .ok (p ++ [⟨2, .outbox, some "x"⟩, ⟨3, .jump "x", none⟩]) := by
  intro a b p q
  have ha : compile a = .ok p := by decide +kernel
  have hb : compile b = .ok q := by decide +kernel
  exact ⟨ha, hb, compile_line_by_line ha hb⟩

end BlockMachine.Source
