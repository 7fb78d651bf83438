import BlockMachine.Proofs.Source.Reading

namespace BlockMachine.Source

open Text

def Accepts (st : Progress) (ts : List Content) (cs : List Char) : Prop :=
  ∀ off, ∃ ss, statementsFrom off st (scan cs) = .ok ss ∧ ss.map Statement.content = ts

/-- A statement can begin where the reader is, which still has statements of these contents to
hand out. -/
inductive Holds : Progress → List Content → Prop
  | between : Holds .between []
  | opened (s : Statement) : Holds (.opened s) [s.content]
  | filled (s : Statement) : Holds (.filled s) [s.content]

def Continues (ts : List Content) (cs : List Char) : Prop :=
  ∀ st held, Holds st held → Accepts st (held ++ ts) cs

theorem accepts_of_read {st : Progress} {k : Kind} {w rest : List Char} {ts : List Content}
    (hp : PieceText rest k w)
    (hread : ∀ off (p : Piece), p.kind = k → ∃ out next ts', st.read off p = .ok (out, next) ∧
      ts = out.toList.map Statement.content ++ ts' ∧ Accepts next ts' rest) :
    Accepts st ts (w ++ rest) := by
  intro off
  obtain ⟨p, hk, -, hscan⟩ := scan_append hp
  obtain ⟨out, next, ts', hr, rfl, hnext⟩ := hread off p hk
  obtain ⟨ss, hss, rfl⟩ := hnext (off + p.size)
  refine ⟨out.toList ++ ss, ?_, List.map_append⟩
  rw [hscan, statementsFrom, hr]
  change (statementsFrom (off + p.size) next (scan rest) >>= fun ss => _) = _
  rw [hss]
  rfl

/-- Where a statement can begin, a piece that begins one or stands between two of them is taken
as such, and what the reader holds comes out. -/
theorem read_of_begin {st next : Progress} {held : List Content} {off : Nat} {p : Piece}
    (hst : Holds st held) (hk : p.kind.operand? = none) (hb : p.kind ≠ .blank)
    (hbegin : Progress.begin off p = .ok next) :
    ∃ out, st.read off p = .ok (out, next) ∧ held = out.toList.map Statement.content := by
  cases hst with
  | between => exact ⟨none, by rw [Progress.read, hbegin]; rfl, rfl⟩
  | opened s =>
    refine ⟨some s, ?_, rfl⟩
    simp only [Progress.read, hk, if_neg hb, hbegin]
    rfl
  | filled s =>
    refine ⟨some s, ?_, rfl⟩
    simp only [Progress.read, if_neg hb, hbegin]
    rfl

theorem read_of_blank {st : Progress} {held : List Content} (off : Nat) {p : Piece}
    (hst : Holds st held) (hk : p.kind = .blank) :
    ∃ next, st.read off p = .ok (none, next) ∧ Holds next held := by
  cases hst with
  | between => exact ⟨.between, by simp [Progress.read, Progress.begin, hk], .between⟩
  | opened s => exact ⟨.opened s, by simp [Progress.read, Kind.operand?, hk], .opened s⟩
  | filled s =>
    exact ⟨.filled (s.extendTo (off + p.size)), by simp [Progress.read, hk], .filled _⟩

/-- Blanks and comments are passed over wherever a statement can begin. -/
theorem Continues.gap {ts : List Content} {g rest : List Char} (hg : Gap rest g)
    (h : Continues ts rest) : Continues ts (g ++ rest) := by
  induction hg with
  | nil => exact h
  | @blank c g hb hg ih =>
    intro st held hst
    apply accepts_of_read (w := [c]) (.blank hb)
    intro off p hk
    obtain ⟨next, hread, hnext⟩ := read_of_blank off hst hk
    exact ⟨none, next, held ++ ts, hread, rfl, ih next held hnext⟩
  | @comment t g ht hend hg ih =>
    intro st held hst
    rw [List.cons_append, List.append_assoc, ← List.cons_append]
    apply accepts_of_read (.comment ht hend)
    intro off p hk
    have hbegin : Progress.begin off p = .ok .between := by simp [Progress.begin, hk]
    obtain ⟨out, hread, rfl⟩ := read_of_begin hst (by rw [hk]; rfl) (by simp [hk]) hbegin
    exact ⟨out, .between, ts, hread, rfl, ih .between [] .between⟩

theorem gap_of_blanks {b : List Char} (hb : Blanks b) (rest : List Char) : Gap rest b := by
  induction b with
  | nil => exact .nil
  | cons c b ih =>
    obtain ⟨hc, hb⟩ := blanks_cons.mp hb
    exact .blank hc (ih hb)

/-- Blanks change nothing for a reader that stays as it is with each of them. -/
theorem accepts_blanks {st : Progress} {ts : List Content} {b cs : List Char} (hb : Blanks b)
    (hst : ∀ off (p : Piece), p.kind = .blank → st.read off p = .ok (none, st))
    (h : Accepts st ts cs) : Accepts st ts (b ++ cs) := by
  induction b with
  | nil => exact h
  | cons c b ih =>
    obtain ⟨hc, hb⟩ := blanks_cons.mp hb
    apply accepts_of_read (w := [c]) (.blank hc)
    intro off p hk
    exact ⟨none, st, ts, hst off p hk, rfl, ih hb⟩

/-- Such a character neither lengthens a numeral nor makes a label of a name. -/
def Detached (c : Char) : Prop := c.isDigit = false ∧ c ≠ ':'

theorem detached_of_isBlank {c : Char} (h : isBlank c = true) : Detached c := by
  have hc : isContinue c = false := isContinue_of_isBlank h
  refine ⟨?_, ?_⟩
  · by_contra hd
    rw [isContinue_of_isDigit (eq_true_of_ne_false hd)] at hc
    cases hc
  · intro hcolon
    subst hcolon
    exact absurd h (by decide)

theorem detached_of_isStart {c : Char} (h : isStart c = true) : Detached c := by
  refine ⟨?_, ?_⟩
  · by_contra hd
    rw [isStart_of_isDigit (eq_true_of_ne_false hd)] at h
    cases h
  · intro hcolon
    subst hcolon
    exact absurd h (by decide)

theorem detached_gap {g rest : List Char} (hg : Gap rest g)
    (hrest : ∀ c ∈ rest.head?, Detached c) : ∀ c ∈ (g ++ rest).head?, Detached c := by
  cases hg with
  | nil => exact hrest
  | blank hb =>
    intro c hc
    cases hc
    exact detached_of_isBlank hb
  | comment =>
    intro c hc
    cases hc
    exact ⟨by decide, by decide⟩

theorem detached_statement {t : Content} {st rest : List Char} (hs : StatementText rest t st) :
    ∀ c ∈ (st ++ rest).head?, Detached c := by
  obtain ⟨hl, hbt⟩ := hs
  obtain ⟨hi, -, -, -⟩ := hbt
  obtain ⟨c, w, rfl, hc, -⟩ := isIdentifier_cases hi
  cases hl with
  | absent =>
    intro d hd
    cases hd
    exact detached_of_isStart hc
  | present hn =>
    obtain ⟨c, n, rfl, hc, -⟩ := isIdentifier_cases hn.1
    intro d hd
    cases hd
    exact detached_of_isStart hc

/-- What comes first in a cut text cannot be taken for a part of what stands before it. -/
theorem Cut.detached {ts : List Content} {cs : List Char} (h : Cut ts cs) :
    ∀ c ∈ cs.head?, Detached c := by
  cases h with
  | @done g hg =>
    have hdetached := detached_gap hg (by simp)
    rw [List.append_nil] at hdetached
    exact hdetached
  | statement hg hs _ => exact detached_gap hg (detached_statement hs)

/-- The operand is taken, and so are the blanks around it. -/
theorem accepts_operand {s : Statement} {a : Option Operand} {t rest : List Char}
    {ts : List Content} (hs : s.operand = none) (ht : OperandText rest a t) (hcut : Cut ts rest)
    (h : Continues ts rest) : Accepts (.opened s) ((s.label, s.opcode, a) :: ts) (t ++ rest) := by
  have hopen : ∀ off (p : Piece), p.kind = .blank →
      (Progress.opened s).read off p = .ok (none, .opened s) := by
    intro off p hk
    simp [Progress.read, Kind.operand?, hk]
  have hfill {k : Kind} {x : Operand} {w b : List Char} (hk : k.operand? = some x)
      (hp : PieceText (b ++ rest) k w) (hb : Blanks b) :
      Accepts (.opened s) ((s.label, s.opcode, some x) :: ts) (w ++ (b ++ rest)) := by
    apply accepts_of_read hp
    intro off p hpk
    refine ⟨none, .filled ({ s with operand := some x }.extendTo (off + p.size)), _, ?_, rfl, ?_⟩
    · simp only [Progress.read, hpk, hk]
    · exact h.gap (gap_of_blanks hb rest) _ _ (.filled _)
  -- what follows the operand begins a gap or a statement, and so cannot be part of the operand
  have hend {b : List Char} (hb : Blanks b) : ∀ c ∈ (b ++ rest).head?, Detached c :=
    detached_gap (gap_of_blanks hb rest) hcut.detached
  cases ht with
  | absent =>
    have hopened := h _ _ (.opened s)
    rw [Statement.content, hs] at hopened
    exact hopened
  | @name b w b' hb hn hword hb' =>
    rw [List.append_assoc, List.append_assoc]
    refine accepts_blanks hb hopen (hfill rfl (.name hn hword ?_) hb')
    intro hc
    exact (hend hb' ':' hc).2 rfl
  | @cell b ds b' n hb hn hlt hb' =>
    rw [List.append_assoc, List.append_assoc]
    have hk : (Kind.numeral n).operand? = some (.cell n) := if_pos hlt
    refine accepts_blanks hb hopen (hfill hk (.numeral hn (.inr ?_)) hb')
    exact fun c hc => (hend hb' c hc).1

/-- A statement is handed out with all that it says, and the reader is at the text behind it. -/
theorem Continues.statement {t : Content} {st rest : List Char} {ts : List Content}
    (hs : StatementText rest t st) (hcut : Cut ts rest) (h : Continues ts rest) :
    Continues (t :: ts) (st ++ rest) := by
  obtain @⟨l, lt, o, a, bt, hl, hbt⟩ := hs
  obtain ⟨hi, ho, hend, ht⟩ := hbt
  intro state held hstate
  cases hl with
  | absent =>
    rw [List.nil_append, List.append_assoc]
    apply accepts_of_read (.opcode hi ho hend)
    intro off p hk
    have hbegin : Progress.begin off p =
        .ok (.opened ⟨none, o, none, ⟨off, off + p.size⟩⟩) := by rw [Progress.begin, hk]
    obtain ⟨out, hread, rfl⟩ := read_of_begin hstate (by rw [hk]; rfl) (by simp [hk]) hbegin
    exact ⟨out, _, _, hread, rfl, accepts_operand rfl ht hcut h⟩
  | @present n b hn _ hb =>
    have hlabel : n ++ ':' :: b = (n ++ [':']) ++ b := by simp
    rw [hlabel, List.append_assoc, List.append_assoc]
    apply accepts_of_read (.label hn)
    intro off p hk
    have hbegin : Progress.begin off p = .ok (.labelled (.ofList n) off) := by
      rw [Progress.begin, hk]
    obtain ⟨out, hread, rfl⟩ := read_of_begin hstate (by rw [hk]; rfl) (by simp [hk]) hbegin
    refine ⟨out, _, _, hread, rfl, ?_⟩
    apply accepts_blanks hb
    · intro off p hk
      simp [Progress.read, Progress.afterLabel, hk]
    · rw [List.append_assoc]
      apply accepts_of_read (.opcode hi ho hend)
      intro off' p hk
      have hread' : (Progress.labelled (.ofList n) off).read off' p =
          .ok (none, .opened ⟨some (.ofList n), o, none, ⟨off, off' + p.size⟩⟩) := by
        simp only [Progress.read, Progress.afterLabel, hk]
        rfl
      exact ⟨none, _, _, hread', rfl, accepts_operand rfl ht hcut h⟩

/-- Every cut can be read from a place where a statement can begin. -/
theorem Cut.continues {ts : List Content} {cs : List Char} (h : Cut ts cs) : Continues ts cs := by
  induction h with
  | @done g hg =>
    have hnil : Continues [] [] := by
      intro st held hst off
      cases hst <;> exact ⟨_, rfl, rfl⟩
    have hgap := hnil.gap hg
    rw [List.append_nil] at hgap
    exact hgap
  | statement hg hs hcut ih =>
    have hstatement := ih.statement hs hcut
    exact hstatement.gap hg

/-- The contents of the statements that a text is read as are those of its cut. -/
theorem parse_eq_ok_iff_cut (source : String) (ts : List Content) :
    (∃ ss, parse source = .ok ss ∧ ss.map Statement.content = ts) ↔ Cut ts source.toList := by
  constructor
  · intro h
    obtain ⟨ss, hss, rfl⟩ := h
    cases awaits_of_statementsFrom hss with
    | between hcut => exact hcut
  · intro hcut
    have hcontinues := hcut.continues
    exact hcontinues .between [] .between 0

end BlockMachine.Source
