import BlockMachine.Proofs.Source.Layout

/-! Where a syntax error stands. Up to its place the text can be read, or only an opcode is missing
there; and what it covers is wrong whatever follows, except for a numeral that is too large, of which
more is read than the first digit. -/
namespace BlockMachine.Source

open Text

inductive Stops (off : Nat) (p : Piece) : Progress → SyntaxError → Prop
  | character {st} : (∀ l start, st ≠ .labelled l start) →
      (p.kind = .symbol ∨ ∃ n, p.kind = .numeral n ∧ ∀ s, st = .opened s → cellBound ≤ n) →
      Stops off p st ⟨.noStatement p.first, ⟨off, off + p.first.utf8Size⟩⟩
  | word {st w} : (∀ l start, st ≠ .labelled l start) → (∀ s, st ≠ .opened s) → p.kind = .name w →
      Stops off p st ⟨.unknownOpcode w, ⟨off, off + p.size⟩⟩
  | characterAfterLabel {l start} :
      (p.kind = .symbol ∨ p.kind = .comment ∨ ∃ n, p.kind = .numeral n) →
      Stops off p (.labelled l start) ⟨.noOpcode p.first, ⟨off, off + p.first.utf8Size⟩⟩
  | wordAfterLabel {l start w} : (p.kind = .name w ∨ p.kind = .label w) →
      Stops off p (.labelled l start) ⟨.unknownOpcode w, ⟨off, off + w.utf8ByteSize⟩⟩

variable {off : Nat} {p : Piece} {st : Progress} {e : SyntaxError}

theorem stops_of_begin (hst : ∀ l start, st ≠ .labelled l start)
    (hopened : ∀ s, st = .opened s → p.kind.operand? = none)
    (h : Progress.begin off p = .error e) : Stops off p st e := by
  rw [Progress.begin] at h
  cases hk : p.kind with
  | blank | comment | label | opcode =>
    rw [hk] at h
    cases h
  | name w =>
    rw [hk] at h
    cases h
    refine .word hst ?_ hk
    intro s hs
    have hnone := hopened s hs
    rw [hk] at hnone
    cases hnone
  | numeral n =>
    rw [hk] at h
    cases h
    refine .character hst (.inr ⟨n, hk, ?_⟩)
    intro s hs
    have hnone := hopened s hs
    rw [hk, Kind.operand?] at hnone
    split at hnone
    · cases hnone
    · next hlt => exact Nat.le_of_not_lt hlt
  | symbol =>
    rw [hk] at h
    cases h
    exact .character hst (.inl hk)

/-- There is no other way to stop the reader. -/
theorem stops_of_read (h : st.read off p = .error e) : Stops off p st e := by
  cases st with
  | between => exact stops_of_begin (by simp) (by simp) (error_of_map_pair.mp h)
  | labelled l start =>
    have hlabel := error_of_map_pair.mp h
    rw [Progress.afterLabel] at hlabel
    cases hk : p.kind with
    | blank | opcode =>
      rw [hk] at hlabel
      cases hlabel
    | name w =>
      rw [hk] at hlabel
      cases hlabel
      exact .wordAfterLabel (.inl hk)
    | label w =>
      rw [hk] at hlabel
      cases hlabel
      exact .wordAfterLabel (.inr hk)
    | comment =>
      rw [hk] at hlabel
      cases hlabel
      exact .characterAfterLabel (.inr (.inl hk))
    | numeral n =>
      rw [hk] at hlabel
      cases hlabel
      exact .characterAfterLabel (.inr (.inr ⟨n, hk⟩))
    | symbol =>
      rw [hk] at hlabel
      cases hlabel
      exact .characterAfterLabel (.inl hk)
  | opened s =>
    rw [Progress.read] at h
    split at h
    · cases h
    · next hnone =>
      split at h
      · cases h
      · exact stops_of_begin (by simp) (fun _ _ => hnone) (error_of_map_pair.mp h)
  | filled s =>
    rw [Progress.read] at h
    split at h
    · cases h
    · exact stops_of_begin (by simp) (by simp) (error_of_map_pair.mp h)

theorem read_of_begin_error (hst : ∀ l start, st ≠ .labelled l start)
    (hopened : ∀ s, st = .opened s → p.kind.operand? = none) (hblank : p.kind ≠ .blank)
    (h : Progress.begin off p = .error e) : st.read off p = .error e := by
  cases st with
  | between => exact error_of_map_pair.mpr h
  | labelled l start => exact absurd rfl (hst l start)
  | opened s =>
    rw [Progress.read, hopened s rfl]
    simp only [if_neg hblank]
    exact error_of_map_pair.mpr h
  | filled s =>
    rw [Progress.read, if_neg hblank]
    exact error_of_map_pair.mpr h

/-- Each of the ways does stop it, wherever it is. -/
theorem read_of_stops (h : Stops off p st e) : st.read off p = .error e := by
  cases h with
  | character hst hk =>
    rcases hk with hk | ⟨n, hk, hn⟩
    · exact read_of_begin_error hst (by simp [hk, Kind.operand?]) (by simp [hk])
        (by simp [Progress.begin, hk])
    · refine read_of_begin_error hst ?_ (by simp [hk]) (by simp [Progress.begin, hk])
      intro s hs
      rw [hk, Kind.operand?, if_neg (Nat.not_lt.mpr (hn s hs))]
  | word hst hopened hk =>
    exact read_of_begin_error hst (fun s hs => absurd hs (hopened s)) (by simp [hk])
      (by simp [Progress.begin, hk])
  | characterAfterLabel hk =>
    apply error_of_map_pair.mpr
    rcases hk with hk | hk | ⟨n, hk⟩ <;> simp [Progress.afterLabel, hk]
  | wordAfterLabel hk =>
    apply error_of_map_pair.mpr
    rcases hk with hk | hk <;> simp [Progress.afterLabel, hk]

def IsRead (text : String) : Prop := ∃ ss, parse text = .ok ss

/-- The text ends in a label, with its colon and any blanks after it, behind a text that is read to
its end: with an opcode added, it has one more statement, which carries the label. -/
def AwaitsOpcode (text : String) : Prop :=
  ∃ before name blanks ss, text = before ++ name ++ ":" ++ blanks ∧
    IsName name.toList ∧ Blanks blanks.toList ∧ parse before = .ok ss ∧
    parse (text ++ "INBOX") = .ok (ss ++
      [⟨some name, .inbox, none, ⟨before.utf8ByteSize, (text ++ "INBOX").utf8ByteSize⟩⟩])

variable {pre post : List Piece} {ss : List Statement} {rest : List Char}

/-- Unless an opcode is due, the text can be read as far as the reader has come. -/
theorem Reaches.isRead (h : Reaches 0 pre ss st) (hstands : Stands rest pre)
    (hst : ∀ l start, st ≠ .labelled l start) : IsRead (.ofList (lettersOf pre)) := by
  obtain ⟨held, hheld, -⟩ := h.stage.closed hst (0 + extent pre)
  refine ⟨ss ++ held, ?_⟩
  rw [parse_lettersOf hstands, h.finish, hheld]
  rfl

theorem pieceText_label {l : Label} {w : List Char} (h : PieceText rest (.label l) w) :
    ∃ n, IsName n ∧ l = .ofList n ∧ w = n ++ [':'] := by
  cases h with
  | label hn => exact ⟨_, hn, rfl, rfl⟩

/-- Blanks are scanned as such whatever follows. -/
theorem stands_blanks {ps : List Piece} (hps : ∀ q ∈ ps, q.kind = .blank) (h : Stands rest ps)
    (rest' : List Char) : Stands rest' ps ∧ Blanks (lettersOf ps) := by
  induction ps with
  | nil => exact ⟨trivial, blanks_nil⟩
  | cons p ps ih =>
    obtain ⟨hk, hps⟩ := List.forall_mem_cons.mp hps
    obtain ⟨hp, hrest⟩ := h
    obtain ⟨hstands, hblanks⟩ := ih hps hrest
    rw [hk] at hp
    obtain ⟨c, hc, hb⟩ : ∃ c, p.letters = [c] ∧ isBlank c = true := by
      cases hl : p.letters with
      | nil => cases hl
      | cons c t =>
        rw [hl] at hp
        cases hp with
        | blank hb => exact ⟨c, rfl, hb⟩
    refine ⟨⟨?_, hstands⟩, ?_⟩
    · rw [hk, hc]
      exact .blank hb
    · rw [lettersOf, List.flatMap_cons, hc, ← lettersOf, List.singleton_append]
      exact blanks_cons.mpr ⟨hb, hblanks⟩

def inboxPiece : Piece := ⟨.opcode .inbox, 'I', ['N', 'B', 'O', 'X']⟩

theorem stands_inboxPiece : Stands [] [inboxPiece] := by
  have hends : EndsWord [] := by simp [EndsWord]
  exact ⟨.opcode (isIdentifier_name .inbox) (spells_name .inbox) hends, trivial⟩

/-- If an opcode is due, the text can be read once there is one. -/
theorem Reaches.awaitsOpcode {l : Label} {start : Nat} (h : Reaches 0 pre ss (.labelled l start))
    (hstands : Stands rest pre) : AwaitsOpcode (.ofList (lettersOf pre)) := by
  have hread := h.statementsFrom_append [inboxPiece]
  cases h.stage with
  | @labelled ps p blanks ss l _ hall hk hblanks _ =>
    obtain ⟨hps, hp, hrest⟩ := stands_append.mp hstands
    rw [hk] at hp
    obtain ⟨n, hn, rfl, hletters⟩ := pieceText_label hp
    obtain ⟨hstandsBlanks, hb⟩ := stands_blanks hblanks hrest (lettersOf [inboxPiece] ++ [])
    have hmore : Stands [] (ps ++ p :: blanks ++ [inboxPiece]) := by
      refine stands_append.mpr ⟨stands_append.mpr ⟨?_, ?_, hstandsBlanks⟩, stands_inboxPiece⟩
      · apply hps.of_head
        rw [lettersOf, List.flatMap_cons, Piece.letters]
        exact fun c hc => hc
      · rw [hk, hletters]
        exact .label hn
    have htext : String.ofList (lettersOf (ps ++ p :: blanks)) =
        .ofList (lettersOf ps) ++ .ofList n ++ ":" ++ .ofList (lettersOf blanks) := by
      rw [← String.toList_inj]
      simp [lettersOf, hletters]
    have hword : String.ofList (lettersOf (ps ++ p :: blanks)) ++ "INBOX" =
        .ofList (lettersOf (ps ++ p :: blanks ++ [inboxPiece])) := by
      rw [lettersOf_append _ [inboxPiece], String.ofList_append]
      rfl
    refine ⟨.ofList (lettersOf ps), .ofList n, .ofList (lettersOf blanks), ss, htext, ?_, ?_, ?_, ?_⟩
    · simpa using hn
    · simpa using hb
    · rw [parse_lettersOf hps, hall]
    · rw [hword, parse_lettersOf hmore, hread, utf8ByteSize_lettersOf, utf8ByteSize_lettersOf,
        extent_append _ [inboxPiece], Nat.zero_add]
      rfl

def BeginsTooLarge (text : String) : Prop :=
  ∃ ds n rest, text.toList = ds ++ rest ∧ Numeral ds n ∧ (∀ c ∈ rest.head?, c.isDigit = false) ∧
    cellBound ≤ n

structure IsWholeName (before name behind : String) : Prop where
  isName : IsName name.toList
  starts : ∀ u v, before = u ++ v → v ≠ "" → ¬IsIdentifier (v ++ name).toList
  ends : EndsWord behind.toList

/-- What an error says of the part of the text that it covers, and of the texts that are the same up
to the end of this part. -/
def SyntaxError.PointsAt (e : SyntaxError) (before covered behind : String) : Prop :=
  e.span = ⟨before.utf8ByteSize, (before ++ covered).utf8ByteSize⟩ ∧
  match e.fault with
  | .noStatement c => covered = .singleton c ∧ IsRead before ∧
      ((∀ more, parse (before ++ covered ++ more) = .error e) ∨ BeginsTooLarge (covered ++ behind))
  | .noOpcode c => covered = .singleton c ∧ AwaitsOpcode before ∧
      ∀ more, parse (before ++ covered ++ more) = .error e
  | .unknownOpcode w => covered = w ∧ IsWholeName before w behind ∧
      (IsRead before ∧ (∀ more, EndsWord more.toList → more.toList.head? ≠ some ':' →
          parse (before ++ covered ++ more) = .error e) ∨
        AwaitsOpcode before ∧ ∀ more, EndsWord more.toList →
          parse (before ++ covered ++ more) = .error e)
  | .unfinished => covered = "" ∧ behind = "" ∧ AwaitsOpcode before

theorem span_of_covered (pre : List Piece) (w : List Char) :
    (⟨extent pre, extent pre + (String.ofList w).utf8ByteSize⟩ : Span) =
      ⟨(String.ofList (lettersOf pre)).utf8ByteSize,
        (String.ofList (lettersOf pre) ++ .ofList w).utf8ByteSize⟩ := by
  rw [String.utf8ByteSize_append, utf8ByteSize_lettersOf]

/-- A text that is the same up to the error and a little further has the same error. -/
theorem parse_of_stops {c : Char} {w : List Char} {more : String} (h : Reaches 0 pre ss st)
    (hstands : Stands (c :: rest) pre)
    (hstops : Stops (extent pre) (Piece.ofHead c (w ++ more.toList)) st e) :
    parse (.ofList (lettersOf pre) ++ .ofList (c :: w) ++ more) = .error e := by
  have htext : (String.ofList (lettersOf pre) ++ .ofList (c :: w) ++ more).toList =
      lettersOf pre ++ c :: (w ++ more.toList) := by simp
  have hmore : Stands (c :: (w ++ more.toList)) pre := hstands.of_head fun d hd => hd
  have hread := read_of_stops hstops
  rw [← Nat.zero_add (extent pre)] at hread
  rw [parse, htext, hmore.scan_append, scan_cons, h.eq_error hread]

/-- A symbol is one whatever follows it. -/
theorem kind_ofHead_of_symbol {c : Char} {t : List Char} (h : PieceText rest .symbol (c :: t))
    (cs : List Char) : (Piece.ofHead c cs).kind = .symbol := by
  cases h with
  | symbol hb hn hs hd =>
    have hp : PieceText cs .symbol [c] := .symbol hb hn hs hd
    have hhead : Piece.ofHead c cs = ⟨.symbol, c, []⟩ := ofHead_of_pieceText hp
    rw [hhead]

theorem kind_ofHead_of_comment {c : Char} {t : List Char} (h : PieceText rest .comment (c :: t))
    (cs : List Char) : (Piece.ofHead c cs).kind = .comment := by
  cases h with
  | comment => rw [Piece.ofHead_comment]

/-- A digit begins a numeral, of whatever value. -/
theorem kind_ofHead_of_numeral {c : Char} {t : List Char} {n : Nat}
    (h : PieceText rest (.numeral n) (c :: t)) (cs : List Char) :
    ∃ m, (Piece.ofHead c cs).kind = .numeral m := by
  cases h with
  | numeral hn =>
    cases hn with
    | zero =>
      rw [Piece.ofHead_zero]
      exact ⟨0, rfl⟩
    | digits hd h0 =>
      rw [Piece.ofHead_digits hd h0]
      exact ⟨_, rfl⟩

/-- A word that is no opcode is a name or, before a colon, a label. -/
theorem kind_ofHead_of_isName {c : Char} {t : List Char} (hn : IsName (c :: t)) {cs : List Char}
    (hcs : EndsWord cs) : (Piece.ofHead c (t ++ cs)).kind = .name (.ofList (c :: t)) ∨
      (Piece.ofHead c (t ++ cs)).kind = .label (.ofList (c :: t)) := by
  rw [ofHead_identifier hn.1 hcs, Piece.ofWord, spelled?_eq_none_iff.mpr hn.2]
  by_cases hcolon : cs.head? = some ':'
  · exact .inr (by simp [hcolon])
  · exact .inl (by simp [hcolon])

theorem beginsTooLarge_of_numeral {n : Nat} {w : List Char} (h : PieceText rest (.numeral n) w)
    (hn : cellBound ≤ n) : BeginsTooLarge (.ofList (w ++ rest)) := by
  cases h with
  | numeral hds hend =>
    refine ⟨w, n, rest, String.toList_ofList, hds, hend.resolve_left ?_, hn⟩
    rintro rfl
    cases hds with
    | zero => exact absurd hn (by decide)
    | digits _ h0 => exact h0 rfl

/-- A name that is a piece of its own is no part of a longer identifier. -/
theorem isWholeName_of_stands {w behind : List Char} (h : Stands (w ++ behind) pre)
    (hn : IsName w) (hend : EndsWord behind) :
    IsWholeName (.ofList (lettersOf pre)) (.ofList w) (.ofList behind) := by
  refine ⟨by simpa using hn, ?_, by simpa using hend⟩
  intro u v hsplit hv
  have hletters : lettersOf pre = u.toList ++ v.toList := by simpa using congrArg String.toList hsplit
  have hw : w ≠ [] := by
    rintro rfl
    exact hn.1
  rw [String.toList_append, String.toList_ofList]
  exact h.not_isIdentifier hletters (by simpa using hv) hw

section PointsAt

variable {c : Char} {t : List Char} {k : Kind}

theorem pointsAt_character (h : Reaches 0 pre ss st) (hpre : Stands (c :: t ++ lettersOf post) pre)
    (hp : PieceText (lettersOf post) k (c :: t)) (hst : ∀ l start, st ≠ .labelled l start)
    (hk : k = .symbol ∨ ∃ n, k = .numeral n ∧ ∀ s, st = .opened s → cellBound ≤ n) :
    SyntaxError.PointsAt ⟨.noStatement c, ⟨extent pre, extent pre + c.utf8Size⟩⟩
      (.ofList (lettersOf pre)) (.singleton c) (.ofList (t ++ lettersOf post)) := by
  rw [String.singleton_eq_ofList]
  -- any text that goes on with this character has the same error if the character always stops
  -- the reader
  have hdoomed (hstops : ∀ cs, Stops (extent pre) (Piece.ofHead c cs) st
      ⟨.noStatement (Piece.ofHead c cs).first,
        ⟨extent pre, extent pre + (Piece.ofHead c cs).first.utf8Size⟩⟩) (more : String) :
      parse (.ofList (lettersOf pre) ++ .ofList [c] ++ more) =
        .error ⟨.noStatement c, ⟨extent pre, extent pre + c.utf8Size⟩⟩ := by
    have hmore := hstops ([] ++ more.toList)
    rw [Piece.ofHead_first] at hmore
    exact parse_of_stops h hpre hmore
  refine ⟨?_, String.singleton_eq_ofList.symm, h.isRead hpre hst, ?_⟩
  · rw [← span_of_covered]
    simp
  rcases hk with rfl | ⟨n, rfl, hn⟩
  · exact .inl (hdoomed fun cs => .character hst (.inl (kind_ofHead_of_symbol hp cs)))
  · -- only where an operand can stand does the value of a numeral matter
    by_cases hopened : ∃ s, st = .opened s
    · obtain ⟨s, hs⟩ := hopened
      have hlarge := beginsTooLarge_of_numeral hp (hn s hs)
      refine .inr ?_
      rw [← String.ofList_append]
      exact hlarge
    · refine .inl (hdoomed fun cs => ?_)
      obtain ⟨m, hm⟩ := kind_ofHead_of_numeral hp cs
      exact .character hst (.inr ⟨m, hm, fun s hs => absurd ⟨s, hs⟩ hopened⟩)

theorem pointsAt_word {w : String} (h : Reaches 0 pre ss st)
    (hpre : Stands (c :: t ++ lettersOf post) pre)
    (hp : PieceText (lettersOf post) (.name w) (c :: t)) (hst : ∀ l start, st ≠ .labelled l start)
    (hopened : ∀ s, st ≠ .opened s) :
    SyntaxError.PointsAt
      ⟨.unknownOpcode w, ⟨extent pre, extent pre + (String.ofList (c :: t)).utf8ByteSize⟩⟩
      (.ofList (lettersOf pre)) w (.ofList (lettersOf post)) := by
  cases hp with
  | name hn hend hcolon =>
    refine ⟨span_of_covered pre _, rfl, isWholeName_of_stands hpre hn hend,
      .inl ⟨h.isRead hpre hst, ?_⟩⟩
    intro more hmore hmoreColon
    have hname : PieceText more.toList (.name (.ofList (c :: t))) (c :: t) :=
      .name hn hmore hmoreColon
    have hhead : Piece.ofHead c (t ++ more.toList) = ⟨.name (.ofList (c :: t)), c, t⟩ :=
      ofHead_of_pieceText hname
    have hstops : Stops (extent pre) (Piece.ofHead c (t ++ more.toList)) st
        ⟨.unknownOpcode (.ofList (c :: t)),
          ⟨extent pre, extent pre + (String.ofList (c :: t)).utf8ByteSize⟩⟩ := by
      have hsize : Piece.size ⟨.name (.ofList (c :: t)), c, t⟩ =
          (String.ofList (c :: t)).utf8ByteSize := Piece.size_eq _
      rw [hhead, ← hsize]
      exact .word hst hopened rfl
    exact parse_of_stops h hpre hstops

theorem pointsAt_characterAfterLabel {l : Label} {start : Nat}
    (h : Reaches 0 pre ss (.labelled l start)) (hpre : Stands (c :: t ++ lettersOf post) pre)
    (hp : PieceText (lettersOf post) k (c :: t))
    (hk : k = .symbol ∨ k = .comment ∨ ∃ n, k = .numeral n) :
    SyntaxError.PointsAt ⟨.noOpcode c, ⟨extent pre, extent pre + c.utf8Size⟩⟩
      (.ofList (lettersOf pre)) (.singleton c) (.ofList (t ++ lettersOf post)) := by
  rw [String.singleton_eq_ofList]
  refine ⟨?_, String.singleton_eq_ofList.symm, h.awaitsOpcode hpre, ?_⟩
  · rw [← span_of_covered]
    simp
  intro more
  have hkind (cs : List Char) : (Piece.ofHead c cs).kind = .symbol ∨
      (Piece.ofHead c cs).kind = .comment ∨ ∃ n, (Piece.ofHead c cs).kind = .numeral n := by
    rcases hk with rfl | rfl | ⟨n, rfl⟩
    · exact .inl (kind_ofHead_of_symbol hp cs)
    · exact .inr (.inl (kind_ofHead_of_comment hp cs))
    · exact .inr (.inr (kind_ofHead_of_numeral hp cs))
  have hstops : Stops (extent pre) (Piece.ofHead c ([] ++ more.toList)) (.labelled l start) _ :=
    .characterAfterLabel (hkind _)
  rw [Piece.ofHead_first] at hstops
  exact parse_of_stops h hpre hstops

theorem pointsAt_wordAfterLabel {l : Label} {start : Nat} {behind : List Char}
    (h : Reaches 0 pre ss (.labelled l start)) (hpre : Stands (c :: t ++ behind) pre)
    (hn : IsName (c :: t)) (hend : EndsWord behind) :
    SyntaxError.PointsAt ⟨.unknownOpcode (.ofList (c :: t)),
        ⟨extent pre, extent pre + (String.ofList (c :: t)).utf8ByteSize⟩⟩
      (.ofList (lettersOf pre)) (.ofList (c :: t)) (.ofList behind) := by
  refine ⟨span_of_covered pre _, rfl, isWholeName_of_stands hpre hn hend,
    .inr ⟨h.awaitsOpcode hpre, ?_⟩⟩
  intro more hmore
  exact parse_of_stops h hpre (.wordAfterLabel (kind_ofHead_of_isName hn hmore))

end PointsAt

/-- However the reader is stopped, the error is right about the text that it covers. -/
theorem pointsAt_of_stops (h : Reaches 0 pre ss st) (hstands : Stands [] (pre ++ p :: post))
    (hstops : Stops (extent pre) p st e) : ∃ covered behind,
      String.ofList (p.letters ++ lettersOf post) = covered ++ behind ∧
      e.PointsAt (.ofList (lettersOf pre)) covered behind := by
  obtain ⟨hpre, hp, -⟩ := stands_append.mp hstands
  rw [List.append_nil] at hpre hp
  have hletters : lettersOf (p :: post) = p.letters ++ lettersOf post := List.flatMap_cons
  have hsplit : String.ofList (p.letters ++ lettersOf post) =
      .singleton p.first ++ .ofList (p.rest ++ lettersOf post) := by
    rw [Piece.letters, List.cons_append, String.ofList_cons]
  rw [hletters] at hpre
  cases hstops with
  | character hst hk => exact ⟨_, _, hsplit, pointsAt_character h hpre hp hst hk⟩
  | characterAfterLabel hk => exact ⟨_, _, hsplit, pointsAt_characterAfterLabel h hpre hp hk⟩
  | @word _ w hst hopened hk =>
    rw [hk] at hp
    have hw : w = .ofList p.letters := by
      generalize p.letters = letters at hp
      cases hp with
      | name => rfl
    refine ⟨w, .ofList (lettersOf post), by rw [String.ofList_append, hw], ?_⟩
    rw [Piece.size_eq]
    exact pointsAt_word h hpre hp hst hopened
  | @wordAfterLabel l start w hk =>
    rcases hk with hk | hk
    · rw [hk] at hp
      have hw : w = .ofList p.letters ∧ IsName p.letters ∧ EndsWord (lettersOf post) := by
        generalize p.letters = letters at hp
        cases hp with
        | name hn hend => exact ⟨rfl, hn, hend⟩
      obtain ⟨rfl, hn, hend⟩ := hw
      refine ⟨_, .ofList (lettersOf post), String.ofList_append, ?_⟩
      exact pointsAt_wordAfterLabel h hpre hn hend
    · -- the word is a second label, and the error leaves its colon out
      rw [hk] at hp
      obtain ⟨n, hn, rfl, hlabel⟩ := pieceText_label hp
      obtain ⟨c, t, rfl, -⟩ := isIdentifier_cases hn.1
      have hcolon : p.letters ++ lettersOf post = (c :: t) ++ ':' :: lettersOf post := by
        rw [hlabel, List.append_assoc, List.singleton_append]
      rw [hcolon] at hpre ⊢
      refine ⟨_, .ofList (':' :: lettersOf post), String.ofList_append, ?_⟩
      exact pointsAt_wordAfterLabel h hpre hn (endsWord_colon _)

/-- The one error of a text that cannot be read points at a part of the text. -/
theorem error_points_at_a_misfit {source : String} (h : parse source = .error e) :
    ∃ before covered behind, source = before ++ covered ++ behind ∧
      e.PointsAt before covered behind := by
  have hstands := stands_scan source.toList
  have hsource : source = .ofList (lettersOf (scan source.toList)) := by
    rw [lettersOf_scan, String.ofList_toList]
  rcases reaches_of_error h with ⟨pre, p, post, ss, st, hscan, hreach, hread⟩ | ⟨ss, st, hreach, hend⟩
  · rw [hscan] at hstands
    rw [Nat.zero_add] at hread
    obtain ⟨covered, behind, hsplit, hpoints⟩ :=
      pointsAt_of_stops hreach hstands (stops_of_read hread)
    refine ⟨.ofList (lettersOf pre), covered, behind, ?_, hpoints⟩
    rw [String.append_assoc, ← hsplit, ← String.ofList_append, hsource, hscan, lettersOf_append]
    rfl
  · cases st with
    | between | opened | filled => cases hend
    | labelled l start =>
      cases hend
      have hawaits := hreach.awaitsOpcode hstands
      rw [← hsource] at hawaits
      refine ⟨source, "", "", by simp, ?_, rfl, rfl, hawaits⟩
      rw [String.append_empty, Nat.zero_add, extent_scan]

/-- Behind a label that is not ASCII stands a second label, and in the line above a comment. -/
theorem second_label_is_pointed_at :
    let source := "JUMP é#é:\n é: Inboxes: ADD 1"
    let e : SyntaxError := ⟨.unknownOpcode "Inboxes", ⟨17, 24⟩⟩
    parse source = .error e ∧ ∃ before covered behind, source = before ++ covered ++ behind ∧
      e.PointsAt before covered behind := by
  intro source e
  have h : parse source = .error e := by decide +kernel
  exact ⟨h, error_points_at_a_misfit h⟩

end BlockMachine.Source
