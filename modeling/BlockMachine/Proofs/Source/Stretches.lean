import BlockMachine.Proofs.Source.Pieces

/-! Stretches of a text, in pieces and in bytes. How a piece is scanned depends on one character of
what follows it, and so a stretch of pieces that is taken out of its text is scanned as before. -/
namespace BlockMachine.Source

open Text

/-- How a piece ends is a matter of the character behind it, if there is one. -/
theorem PieceText.of_head {rest rest' : List Char} {k : Kind} {w : List Char}
    (h : PieceText rest k w) (hhead : ∀ c ∈ rest'.head?, c ∈ rest.head?) : PieceText rest' k w := by
  have hends {P : Char → Prop} (hrest : ∀ c ∈ rest.head?, P c) : ∀ c ∈ rest'.head?, P c :=
    fun c hc => hrest c (hhead c hc)
  cases h with
  | blank hb => exact .blank hb
  | comment ht hr => exact .comment ht (hends hr)
  | label hn => exact .label hn
  | opcode hi ho hr => exact .opcode hi ho (hends hr)
  | name hn hr hcolon => exact .name hn (hends hr) fun hc => hcolon (hhead ':' hc)
  | numeral hn hr => exact .numeral hn (hr.imp id hends)
  | symbol hb hn hs hd => exact .symbol hb hn hs hd

/-- No identifier goes on beyond the end of the piece in which it begins. -/
theorem PieceText.not_isIdentifier {k : Kind} {u v w rest : List Char}
    (h : PieceText (w ++ rest) k (u ++ v)) (hv : v ≠ []) (hw : w ≠ []) :
    ¬IsIdentifier (v ++ w) := by
  intro hid
  have hall := hid.isContinue
  obtain ⟨c, t, rfl⟩ := List.exists_cons_of_ne_nil hv
  obtain ⟨d, s, rfl⟩ := List.exists_cons_of_ne_nil hw
  have hc : isStart c = true := hid.1
  have hd : isContinue d = true := hall d (by simp)
  have hends : ¬EndsWord (d :: s ++ rest) := by
    intro hend
    have hd' := endsWord_cons.mp hend
    rw [hd] at hd'
    cases hd'
  have hmem : c ∈ u ++ c :: t := by simp
  generalize hl : u ++ c :: t = letters at h hmem
  cases h with
  | blank hb =>
    obtain rfl := List.mem_singleton.mp hmem
    rw [isBlank_of_isStart hc] at hb
    cases hb
  | comment _ hend =>
    obtain rfl : d = '\n' := hend d rfl
    exact absurd hd (by decide)
  | label =>
    have hlast : (c :: t).getLast hv = ':' := by
      rw [← List.getLast_append_right (List.cons_ne_nil c t) (l := u)]
      simp [hl]
    have hcolon := hall _ (List.mem_append_left _ (List.getLast_mem hv))
    rw [hlast] at hcolon
    exact absurd hcolon (by decide)
  | opcode _ _ hend => exact hends hend
  | name _ hend => exact hends hend
  | numeral hn =>
    have hdigit := hn.isDigit c hmem
    rw [isStart_of_isDigit hdigit] at hc
    cases hc
  | symbol _ _ hs =>
    obtain rfl := List.mem_singleton.mp hmem
    rw [hc] at hs
    cases hs

theorem Piece.eq_of_letters {p q : Piece} (hk : p.kind = q.kind) (hl : p.letters = q.letters) :
    p = q := by
  obtain ⟨k, c, t⟩ := p
  obtain ⟨k', c', t'⟩ := q
  obtain ⟨rfl, rfl⟩ := List.cons_eq_cons.mp hl
  cases hk
  rfl

def lettersOf (ps : List Piece) : List Char := ps.flatMap Piece.letters

theorem lettersOf_append (ps qs : List Piece) :
    lettersOf (ps ++ qs) = lettersOf ps ++ lettersOf qs := List.flatMap_append

theorem lettersOf_scan (cs : List Char) : lettersOf (scan cs) = cs := flatMap_letters_scan cs

def Stands (rest : List Char) : List Piece → Prop
  | [] => True
  | p :: ps => PieceText (lettersOf ps ++ rest) p.kind p.letters ∧ Stands rest ps

section Stands

variable {ps qs : List Piece} {rest rest' : List Char}

theorem stands_append :
    Stands rest (ps ++ qs) ↔ Stands (lettersOf qs ++ rest) ps ∧ Stands rest qs := by
  induction ps with
  | nil => simp [Stands]
  | cons p ps ih =>
    rw [List.cons_append, Stands, Stands, ih, lettersOf_append, List.append_assoc, and_assoc]

/-- The pieces depend on no more than the next character of what follows them. -/
theorem Stands.of_head (h : Stands rest ps) (hhead : ∀ c ∈ rest'.head?, c ∈ rest.head?) :
    Stands rest' ps := by
  induction ps with
  | nil => trivial
  | cons p ps ih =>
    obtain ⟨hp, hps⟩ := h
    refine ⟨hp.of_head ?_, ih hps⟩
    cases lettersOf ps with
    | nil => exact hhead
    | cons d ds => exact fun c hc => hc

/-- No identifier reaches from the last of the pieces into what follows them. -/
theorem Stands.not_isIdentifier {u v w : List Char} (h : Stands (w ++ rest) ps)
    (hsplit : lettersOf ps = u ++ v) (hv : v ≠ []) (hw : w ≠ []) : ¬IsIdentifier (v ++ w) := by
  induction ps generalizing u with
  | nil => exact absurd (List.append_eq_nil_iff.mp hsplit.symm).2 hv
  | cons p ps ih =>
    obtain ⟨hp, hps⟩ := h
    rw [lettersOf, List.flatMap_cons, ← lettersOf] at hsplit
    rcases List.append_eq_append_iff.mp hsplit with ⟨u', -, hu'⟩ | ⟨v', hv', rfl⟩
    · exact ih hps hu'
    · cases v' with
      | nil => exact ih (u := []) hps rfl
      | cons c t =>
        rw [hv', ← List.append_assoc] at hp
        rw [List.append_assoc]
        exact hp.not_isIdentifier (List.cons_ne_nil c t) (List.append_ne_nil_of_right_ne_nil _ hw)

theorem stands_scan (cs : List Char) : Stands [] (scan cs) := by
  -- the scanner goes on behind a whole piece, so the induction is on the length of the text
  induction hn : cs.length using Nat.strongRecOn generalizing cs with
  | ind n ih =>
    rcases scan_cases cs with rfl | ⟨p, rest, rfl, hp, hscan⟩
    · trivial
    · have hlt : rest.length < n := by
        have hpos : 0 < p.letters.length := Nat.succ_pos _
        rw [List.length_append] at hn
        omega
      rw [hscan]
      refine ⟨?_, ih rest.length hlt rest rfl⟩
      rw [lettersOf_scan, List.append_nil]
      exact hp

/-- Pieces that can stand before a text are scanned as they are. -/
theorem Stands.scan_append (h : Stands rest ps) :
    scan (lettersOf ps ++ rest) = ps ++ scan rest := by
  induction ps with
  | nil => rfl
  | cons p ps ih =>
    obtain ⟨hp, hps⟩ := h
    obtain ⟨q, hk, hl, hscan⟩ := Source.scan_append hp
    rw [lettersOf, List.flatMap_cons, List.append_assoc, ← lettersOf, hscan, ih hps,
      Piece.eq_of_letters hk hl]
    rfl

theorem Stands.scan_eq (h : Stands rest ps) : scan (lettersOf ps) = ps := by
  have hend : Stands [] ps := h.of_head (by simp)
  have hscan := hend.scan_append
  simpa [scan_nil] using hscan

end Stands

def extent : List Piece → Nat
  | [] => 0
  | p :: ps => p.size + extent ps

theorem extent_append (ps qs : List Piece) : extent (ps ++ qs) = extent ps + extent qs := by
  induction ps with
  | nil => exact (Nat.zero_add _).symm
  | cons p ps ih => rw [List.cons_append, extent, extent, ih, Nat.add_assoc]

theorem extent_singleton (p : Piece) : extent [p] = p.size := rfl

theorem foldl_utf8Size (cs : List Char) (n : Nat) :
    cs.foldl (· + ·.utf8Size) n = n + (String.ofList cs).utf8ByteSize := by
  induction cs generalizing n with
  | nil => rfl
  | cons c cs ih =>
    rw [List.foldl_cons, ih, String.ofList_cons, String.utf8ByteSize_append,
      String.utf8ByteSize_singleton, Nat.add_assoc]

theorem Piece.size_eq (p : Piece) : p.size = (String.ofList p.letters).utf8ByteSize := by
  rw [size, foldl_utf8Size, Nat.zero_add]

/-- No piece is empty. -/
theorem Piece.size_pos (p : Piece) : 0 < p.size := by
  have hpos := p.first.utf8Size_pos
  rw [size_eq, letters, String.ofList_cons, String.utf8ByteSize_append,
    String.utf8ByteSize_singleton]
  omega

theorem utf8ByteSize_lettersOf (ps : List Piece) :
    (String.ofList (lettersOf ps)).utf8ByteSize = extent ps := by
  induction ps with
  | nil => rfl
  | cons p ps ih =>
    rw [lettersOf, List.flatMap_cons, ← lettersOf, String.ofList_append,
      String.utf8ByteSize_append, ih, ← p.size_eq, extent]

/-- The pieces of a text take up all of its bytes. -/
theorem extent_scan (text : String) : extent (scan text.toList) = text.utf8ByteSize := by
  rw [← utf8ByteSize_lettersOf, lettersOf_scan, String.ofList_toList]

def Span.Covers (sp : Span) (text part : String) : Prop :=
  ∃ before after, text = before ++ part ++ after ∧
    sp = ⟨before.utf8ByteSize, (before ++ part).utf8ByteSize⟩

/-- A stretch of pieces begins and ends between two characters. -/
theorem covers_of_scan {source : String} {pre ps post : List Piece}
    (h : scan source.toList = pre ++ (ps ++ post)) :
    Span.Covers ⟨extent pre, extent pre + extent ps⟩ source (.ofList (lettersOf ps)) := by
  have hletters := lettersOf_scan source.toList
  rw [h, lettersOf_append, lettersOf_append] at hletters
  refine ⟨.ofList (lettersOf pre), .ofList (lettersOf post), ?_, ?_⟩
  · rw [← String.toList_inj, ← hletters]
    simp
  · rw [String.utf8ByteSize_append, utf8ByteSize_lettersOf, utf8ByteSize_lettersOf]

end BlockMachine.Source
