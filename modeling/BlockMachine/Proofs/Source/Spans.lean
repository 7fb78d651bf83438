import BlockMachine.Proofs.Source.Layout

namespace BlockMachine.Source

def Span.moved (d : Nat) (sp : Span) : Span := ⟨sp.start + d, sp.stop + d⟩

def Statement.moved (d : Nat) (s : Statement) : Statement := { s with span := s.span.moved d }

def SyntaxError.moved (d : Nat) (e : SyntaxError) : SyntaxError := { e with span := e.span.moved d }

def Progress.moved (d : Nat) : Progress → Progress
  | between => between
  | labelled l start => labelled l (start + d)
  | opened s => opened (s.moved d)
  | filled s => filled (s.moved d)

def moveResult {α : Type} (move : α → α) (d : Nat) : Except SyntaxError α → Except SyntaxError α
  | .ok a => .ok (move a)
  | .error e => .error (e.moved d)

theorem Progress.begin_moved (off d : Nat) (p : Piece) :
    begin (off + d) p = moveResult (moved d) d (begin off p) := by
  rw [begin, begin]
  cases p.kind <;>
    simp [moveResult, moved, Statement.moved, SyntaxError.moved, Span.moved, Nat.add_right_comm]

theorem Progress.afterLabel_moved (l : Label) (start off d : Nat) (p : Piece) :
    afterLabel l (start + d) (off + d) p = moveResult (moved d) d (afterLabel l start off p) := by
  rw [afterLabel, afterLabel]
  cases p.kind <;>
    simp [moveResult, moved, Statement.moved, SyntaxError.moved, Span.moved, Nat.add_right_comm]

theorem Progress.read_moved (st : Progress) (off d : Nat) (p : Piece) :
    (st.moved d).read (off + d) p =
      moveResult (fun r => (r.1.map (·.moved d), r.2.moved d)) d (st.read off p) := by
  cases st with
  | between =>
    simp only [moved, read, begin_moved]
    cases begin off p <;> rfl
  | labelled l start =>
    simp only [moved, read, afterLabel_moved]
    cases afterLabel l start off p <;> rfl
  | opened s =>
    simp only [moved, read, begin_moved]
    cases p.kind.operand? with
    | some a =>
      simp [moveResult, Statement.moved, Statement.extendTo, Span.moved, Nat.add_right_comm]
    | none =>
      simp only
      split
      · rfl
      · cases begin off p <;> rfl
  | filled s =>
    simp only [moved, read, begin_moved]
    split
    · simp [moveResult, Statement.moved, Statement.extendTo, Span.moved, Nat.add_right_comm]
    · cases begin off p <;> rfl

/-- Wherever a text stands, it is read in the same way, and only the spans move. -/
theorem statementsFrom_moved (off d : Nat) (st : Progress) (ps : List Piece) :
    statementsFrom (off + d) (st.moved d) ps =
      moveResult (List.map (·.moved d)) d (statementsFrom off st ps) := by
  induction ps generalizing off st with
  | nil => cases st <;> rfl
  | cons p ps ih =>
    have hmoved := st.read_moved off d p
    cases hread : st.read off p with
    | error e =>
      rw [hread] at hmoved
      rw [statementsFrom_cons_of_error hread, statementsFrom_cons_of_error hmoved]
      rfl
    | ok r =>
      obtain ⟨out, next⟩ := r
      rw [hread] at hmoved
      rw [statementsFrom_cons_of_read hread, statementsFrom_cons_of_read hmoved,
        Nat.add_right_comm, ih]
      cases statementsFrom (off + p.size) next ps with
      | error e => rfl
      | ok us => cases out <;> rfl

variable {off : Nat} {ps own : List Piece} {ss : List Statement} {s : Statement}

def gapsFrom (stop : Nat) : Nat → List Statement → List Span
  | off, [] => [⟨off, stop⟩]
  | off, s :: ss => ⟨off, s.span.start⟩ :: gapsFrom stop s.span.stop ss

def Statement.atHead (s : Statement) : Statement := { s with span := ⟨0, s.span.stop - s.span.start⟩ }

/-- Cut out of its text, a statement is read as it was read in its place. -/
theorem IsStatement.read_atHead (h : IsStatement off own s) :
    statementsFrom 0 .between own = .ok [s.atHead] := by
  have hmoved := statementsFrom_moved 0 off .between own
  rw [Nat.zero_add] at hmoved
  change statementsFrom off .between own = _ at hmoved
  rw [h.read] at hmoved
  cases hown : statementsFrom 0 .between own with
  | error e =>
    rw [hown] at hmoved
    cases hmoved
  | ok us =>
    rw [hown] at hmoved
    have hmap : us.map (·.moved off) = [s] := (Except.ok.inj hmoved).symm
    obtain ⟨u, rfl, rfl⟩ := List.map_eq_singleton_iff.mp hmap
    obtain ⟨l, o, a, start, stop⟩ := u
    obtain ⟨hstart, -⟩ : start + off = off ∧ _ := Span.mk.inj h.span
    have hzero : start = 0 := by omega
    subst hzero
    simp [Statement.atHead, Statement.moved, Span.moved]

/-- A part of the text, cut out of it at its bytes, is read as these statements. -/
def ReadsApart (source : String) (sp : Span) (ss : List Statement) : Prop :=
  ∃ part, sp.Covers source part ∧ parse part = .ok ss

theorem readsApart_of_scan {source : String} {pre post : List Piece}
    (h : scan source.toList = pre ++ (own ++ post))
    (hread : statementsFrom 0 .between own = .ok ss) :
    ReadsApart source ⟨extent pre, extent pre + extent own⟩ ss := by
  have hstands : Stands [] (pre ++ (own ++ post)) := h ▸ stands_scan source.toList
  obtain ⟨hown, -⟩ := stands_append.mp (stands_append.mp hstands).2
  refine ⟨_, covers_of_scan h, ?_⟩
  rw [parse_lettersOf hown, hread]

theorem extent_pos (h : ps ≠ []) : 0 < extent ps := by
  obtain ⟨p, qs, rfl⟩ := List.exists_cons_of_ne_nil h
  have hpos := p.size_pos
  rw [extent]
  omega

/-- A text that is laid out falls apart at the spans of its statements. -/
theorem Laid.readsApart {source : String} {pre : List Piece} (h : Laid off ps ss)
    (hscan : scan source.toList = pre ++ ps) (hoff : off = extent pre) :
    (∀ s ∈ ss, s.span.start < s.span.stop ∧ ReadsApart source s.span [s.atHead]) ∧
    ∀ gap ∈ gapsFrom source.utf8ByteSize off ss,
      gap.start ≤ gap.stop ∧ ReadsApart source gap [] := by
  induction h generalizing pre with
  | @done off gap hg =>
    have hsize : source.utf8ByteSize = extent pre + extent gap := by
      rw [← extent_scan, hscan, extent_append]
    have hscan' : scan source.toList = pre ++ (gap ++ []) := by simpa using hscan
    have hpart := readsApart_of_scan hscan' (statementsFrom_gap hg 0)
    rw [hoff, hsize]
    simpa [gapsFrom] using hpart
  | @statement off gap own ps s ss hg hs _ ih =>
    subst hoff
    have hgap := readsApart_of_scan hscan (statementsFrom_gap hg 0)
    have hscan' : scan source.toList = (pre ++ gap) ++ (own ++ ps) := by simpa using hscan
    have hown := readsApart_of_scan hscan' hs.read_atHead
    rw [extent_append, ← hs.span] at hown
    have hstop : s.span.stop = extent (pre ++ (gap ++ own)) := by
      rw [hs.span, extent_append, extent_append, Nat.add_assoc]
    have hrest : scan source.toList = (pre ++ (gap ++ own)) ++ ps := by simpa using hscan
    obtain ⟨hparts, hgaps⟩ := ih hrest hstop
    have hpos := extent_pos hs.nonempty
    constructor
    · refine List.forall_mem_cons.mpr ⟨⟨?_, hown⟩, hparts⟩
      rw [hs.span]
      exact Nat.lt_add_of_pos_right hpos
    · refine List.forall_mem_cons.mpr ⟨⟨?_, ?_⟩, hgaps⟩
      · rw [hs.span]
        exact Nat.le_add_right ..
      · rw [hs.span]
        exact hgap

/-- The spans of the statements of a text follow one another and do not overlap. Each of them, cut
out of the text, is read as just its statement, which then begins at the head; and each of the
stretches between them, before the first and behind the last is read as no statement at all. -/
theorem spans_are_exact {source : String} {ss : List Statement} (h : parse source = .ok ss) :
    (∀ s ∈ ss, s.span.start < s.span.stop ∧ ReadsApart source s.span [s.atHead]) ∧
    ∀ gap ∈ gapsFrom source.utf8ByteSize 0 ss,
      gap.start ≤ gap.stop ∧ ReadsApart source gap [] := by
  have hlaid : Laid 0 (scan source.toList) ss := laid_of_ok h
  have hscan : scan source.toList = [] ++ scan source.toList := rfl
  exact hlaid.readsApart hscan rfl

/-- An opcode that follows a numeral without a blank, a comment beyond ASCII, and an operand with
blanks behind it, which belong to its statement. -/
theorem glued_statements_are_cut_apart :
    let source := "é:INBOX ADD 5OUTBOX # é\n jump é  "
    let ss : List Statement := [⟨some "é", .inbox, none, ⟨0, 8⟩⟩, ⟨none, .add, some (.cell 5), ⟨9, 14⟩⟩,
      ⟨none, .outbox, none, ⟨14, 20⟩⟩, ⟨none, .jump, some (.name "é"), ⟨27, 36⟩⟩]
    let gaps : List Span := [⟨0, 0⟩, ⟨8, 9⟩, ⟨14, 14⟩, ⟨20, 27⟩, ⟨36, 36⟩]
    parse source = .ok ss ∧ (∀ s ∈ ss, ReadsApart source s.span [s.atHead]) ∧
      ∀ gap ∈ gaps, ReadsApart source gap [] := by
  intro source ss gaps
  have h : parse source = .ok ss := by decide +kernel
  obtain ⟨hparts, hgaps⟩ := spans_are_exact h
  have hall : gapsFrom source.utf8ByteSize 0 ss = gaps := by decide +kernel
  rw [hall] at hgaps
  exact ⟨h, fun s hs => (hparts s hs).2, fun gap hgap => (hgaps gap hgap).2⟩

end BlockMachine.Source
