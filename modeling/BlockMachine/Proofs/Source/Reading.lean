import BlockMachine.Proofs.Source.Pieces

namespace BlockMachine.Source

open Text

theorem Cut.blank {ts : List Content} {c : Char} {cs : List Char} (h : isBlank c = true)
    (hcut : Cut ts cs) : Cut ts (c :: cs) := by
  cases hcut with
  | done hg => exact .done (.blank h hg)
  | statement hg hs hrest => exact .statement (.blank h hg) hs hrest

/-- A comment before a cut text belongs to its first gap. -/
theorem Cut.comment {ts : List Content} {t cs : List Char} (ht : '\n' ∉ t)
    (hend : ∀ c ∈ cs.head?, c = '\n') (hcut : Cut ts cs) : Cut ts ('#' :: (t ++ cs)) := by
  cases hcut with
  | done hg => exact .done (.comment ht (by simpa using hend) hg)
  | @statement g st rest _ _ hg hs hrest =>
    rw [← List.append_assoc, ← List.cons_append]
    exact .statement (.comment ht hend hg) hs hrest

theorem Cut.of_statement {t : Content} {ts : List Content} {st rest : List Char}
    (hs : StatementText rest t st) (hrest : Cut ts rest) : Cut (t :: ts) (st ++ rest) :=
  .statement .nil hs hrest

theorem OperandText.blank {a : Operand} {c : Char} {t rest : List Char} (h : isBlank c = true)
    (ht : OperandText rest (some a) t) : OperandText rest (some a) (c :: t) := by
  cases ht with
  | name hb hn hend hb' => exact .name (blanks_cons.mpr ⟨h, hb⟩) hn hend hb'
  | cell hb hn hlt hb' => exact .cell (blanks_cons.mpr ⟨h, hb⟩) hn hlt hb'

/-- What may follow where the reader has come so far, and what the statements that it still has
to hand out say. -/
inductive Awaits : Progress → List Content → List Char → Prop
  | between {ts cs} : Cut ts cs → Awaits .between ts cs
  | labelled {l start b o a bt rest ts} : Blanks b → BlockText rest o a bt → Cut ts rest →
      Awaits (.labelled l start) ((some l, o, a) :: ts) (b ++ (bt ++ rest))
  | bare {s ts cs} : Cut ts cs → Awaits (.opened s) (s.content :: ts) cs
  | opened {s a t rest ts} : OperandText rest (some a) t → Cut ts rest →
      Awaits (.opened s) ((s.label, s.opcode, some a) :: ts) (t ++ rest)
  | filled {s b rest ts} : Blanks b → Cut ts rest → Awaits (.filled s) (s.content :: ts) (b ++ rest)

/-- An opcode and what may follow it make up a block. -/
theorem exists_block_of_awaits {l : Option Label} {o : Opcode} {sp : Span} {w after : List Char}
    {ts : List Content} (hi : IsIdentifier w) (ho : Spells o w) (hend : EndsWord after)
    (h : Awaits (.opened ⟨l, o, none, sp⟩) ts after) :
    ∃ a bt rest ts', ts = (l, o, a) :: ts' ∧ w ++ after = bt ++ rest ∧ BlockText rest o a bt ∧
      Cut ts' rest := by
  cases h with
  | bare hcut =>
    have hblock : BlockText after o none (w ++ []) := .intro hi ho hend .absent
    exact ⟨none, w ++ [], after, _, rfl, by simp, hblock, hcut⟩
  | @opened _ a t rest _ ht hcut =>
    have hblock : BlockText rest o (some a) (w ++ t) := .intro hi ho hend ht
    exact ⟨some a, w ++ t, rest, _, rfl, by simp, hblock, hcut⟩

/-- Between two statements a piece is part of a gap or begins a statement. -/
theorem cut_of_begin {off : Nat} {p : Piece} {next : Progress} {ts : List Content}
    {rest : List Char} (hread : Progress.begin off p = .ok next)
    (hp : PieceText rest p.kind p.letters) (h : Awaits next ts rest) :
    Cut ts (p.letters ++ rest) := by
  generalize p.letters = w at hp
  obtain ⟨k, c, t⟩ := p
  cases hp with
  | blank hb =>
    cases hread
    cases h with
    | between hcut => exact hcut.blank hb
  | comment ht hend =>
    cases hread
    cases h with
    | between hcut => exact hcut.comment ht hend
  | label hn =>
    cases hread
    cases h with
    | @labelled _ _ b o a bt rest _ hb hbt hcut =>
      have hl := LabelText.present hn (endsWord_colon b) hb
      have hst := StatementText.intro hl hbt
      simpa using Cut.of_statement hst hcut
  | opcode hi ho hend =>
    cases hread
    obtain ⟨a, bt, rest', ts', rfl, he, hbt, hcut⟩ := exists_block_of_awaits hi ho hend h
    rw [he]
    exact Cut.of_statement (.intro .absent hbt) hcut
  | name | numeral | symbol => cases hread

theorem awaits_of_afterLabel {l : Label} {start off : Nat} {p : Piece} {next : Progress}
    {ts : List Content} {rest : List Char} (hread : Progress.afterLabel l start off p = .ok next)
    (hp : PieceText rest p.kind p.letters) (h : Awaits next ts rest) :
    Awaits (.labelled l start) ts (p.letters ++ rest) := by
  generalize p.letters = w at hp
  obtain ⟨k, c, t⟩ := p
  cases hp with
  | blank hb =>
    cases hread
    cases h with
    | labelled hbs hbt hcut =>
      rw [List.singleton_append, ← List.cons_append]
      exact .labelled (blanks_cons.mpr ⟨hb, hbs⟩) hbt hcut
  | opcode hi ho hend =>
    cases hread
    obtain ⟨a, bt, rest', ts', rfl, he, hbt, hcut⟩ := exists_block_of_awaits hi ho hend h
    rw [he]
    exact .labelled (blanks_nil) hbt hcut
  | comment | label | name | numeral | symbol => cases hread

/-- A piece that the reader takes for an operand is one, with the blanks behind it. -/
theorem operandText_of_piece {k : Kind} {w b rest : List Char} {a : Operand}
    (hk : k.operand? = some a) (hp : PieceText (b ++ rest) k w) (hb : Blanks b) :
    OperandText rest (some a) (w ++ b) := by
  cases hp with
  | name hn hend =>
    cases hk
    exact .name (blanks_nil) hn hend hb
  | numeral hn =>
    rw [Kind.operand?] at hk
    split at hk
    · next hlt =>
      cases hk
      exact .cell (blanks_nil) hn hlt hb
    · cases hk
  | blank | comment | label | opcode | symbol => cases hk

theorem ok_of_map_pair {ε α β : Type} {a a' : α} {x : Except ε β} {b : β}
    (h : (a, ·) <$> x = .ok (a', b)) : a = a' ∧ x = .ok b := by
  cases x with
  | error e => cases h
  | ok b' =>
    cases h
    exact ⟨rfl, rfl⟩

theorem error_of_map_pair {ε α β : Type} {a : α} {x : Except ε β} {e : ε} :
    (a, ·) <$> x = .error e ↔ x = .error e := by
  cases x with
  | error f =>
    change Except.error f = .error e ↔ _
    simp
  | ok b =>
    change Except.ok (a, b) = .error e ↔ _
    simp

/-- With the piece put back before it, the rest is what was awaited before the piece was read. -/
theorem awaits_of_read {st next : Progress} {off : Nat} {p : Piece} {out : Option Statement}
    {ts : List Content} {rest : List Char} (hread : st.read off p = .ok (out, next))
    (hp : PieceText rest p.kind p.letters) (h : Awaits next ts rest) :
    Awaits st (out.toList.map Statement.content ++ ts) (p.letters ++ rest) := by
  cases st with
  | between =>
    obtain ⟨rfl, hbegin⟩ := ok_of_map_pair hread
    exact .between (cut_of_begin hbegin hp h)
  | labelled l start =>
    obtain ⟨rfl, hlabel⟩ := ok_of_map_pair hread
    exact awaits_of_afterLabel hlabel hp h
  | opened s =>
    simp only [Progress.read] at hread
    split at hread
    · next a ha =>
      cases hread
      cases h with
      | @filled _ b rest _ hb hcut =>
        rw [← List.append_assoc]
        exact .opened (operandText_of_piece ha hp hb) hcut
    · split at hread
      · next hk =>
        rw [hk] at hp
        generalize p.letters = w at hp
        cases hread
        cases hp with
        | blank hb =>
          cases h with
          | bare hcut => exact .bare (hcut.blank hb)
          | opened ht hcut =>
            rw [List.singleton_append, ← List.cons_append]
            exact .opened (ht.blank hb) hcut
      · obtain ⟨rfl, hbegin⟩ := ok_of_map_pair hread
        exact .bare (cut_of_begin hbegin hp h)
  | filled s =>
    simp only [Progress.read] at hread
    split at hread
    · next hk =>
      rw [hk] at hp
      generalize p.letters = w at hp
      cases hread
      cases hp with
      | blank hb =>
        cases h with
        | filled hbs hcut =>
          rw [List.singleton_append, ← List.cons_append]
          exact .filled (blanks_cons.mpr ⟨hb, hbs⟩) hcut
    · obtain ⟨rfl, hbegin⟩ := ok_of_map_pair hread
      have hcut := cut_of_begin hbegin hp h
      exact .filled (b := []) blanks_nil hcut

theorem statementsFrom_cons_ok {off : Nat} {st : Progress} {p : Piece} {ps : List Piece}
    {ss : List Statement} (h : statementsFrom off st (p :: ps) = .ok ss) :
    ∃ out next rest, st.read off p = .ok (out, next) ∧
      statementsFrom (off + p.size) next ps = .ok rest ∧ ss = out.toList ++ rest := by
  rw [statementsFrom] at h
  cases hr : st.read off p with
  | error e =>
    rw [hr] at h
    cases h
  | ok r =>
    obtain ⟨out, next⟩ := r
    rw [hr] at h
    change (statementsFrom (off + p.size) next ps >>= fun rest => _) = _ at h
    cases hs : statementsFrom (off + p.size) next ps with
    | error e =>
      rw [hs] at h
      cases h
    | ok rest =>
      rw [hs] at h
      cases h
      exact ⟨out, next, rest, rfl, hs, rfl⟩

/-- Whatever the reader accepts is what was due. -/
theorem awaits_of_statementsFrom {off : Nat} {st : Progress} {cs : List Char}
    {ss : List Statement} (h : statementsFrom off st (scan cs) = .ok ss) :
    Awaits st (ss.map Statement.content) cs := by
  -- by induction on the text, piece after piece
  induction hn : cs.length using Nat.strongRecOn generalizing off st cs ss with
  | ind n ih =>
    rcases scan_cases cs with rfl | ⟨p, rest, rfl, hp, hscan⟩
    · cases st with
      | labelled => cases h
      | between =>
        cases h
        exact .between (.done .nil)
      | opened s =>
        cases h
        exact .bare (.done .nil)
      | filled s =>
        cases h
        exact .filled blanks_nil (.done .nil)
    · rw [hscan] at h
      obtain ⟨out, next, ss', hread, hrest, rfl⟩ := statementsFrom_cons_ok h
      have hlt : rest.length < n := by
        have hpos : 0 < p.letters.length := Nat.succ_pos _
        rw [List.length_append] at hn
        omega
      have hawaits := ih rest.length hlt hrest rfl
      rw [List.map_append]
      exact awaits_of_read hread hp hawaits

end BlockMachine.Source
