import Mathlib.Data.List.TakeWhile
import BlockMachine.Proofs.Source.Grammar

namespace BlockMachine.Source

open Text

inductive PieceText (rest : List Char) : Kind → List Char → Prop
  | blank {c} : isBlank c = true → PieceText rest .blank [c]
  | comment {t} : '\n' ∉ t → (∀ c ∈ rest.head?, c = '\n') → PieceText rest .comment ('#' :: t)
  | label {n} : IsName n → PieceText rest (.label (.ofList n)) (n ++ [':'])
  | opcode {o w} : IsIdentifier w → Spells o w → EndsWord rest → PieceText rest (.opcode o) w
  | name {w} : IsName w → EndsWord rest → rest.head? ≠ some ':' →
      PieceText rest (.name (.ofList w)) w
  | numeral {ds n} : Numeral ds n → (ds = ['0'] ∨ ∀ c ∈ rest.head?, c.isDigit = false) →
      PieceText rest (.numeral n) ds
  | symbol {c} : isBlank c = false → c ≠ '#' → isStart c = false → c.isDigit = false →
      PieceText rest .symbol [c]

/-- A run of characters with a property ends where the property first fails. -/
theorem span_append {p : Char → Bool} {w rest : List Char} (hw : ∀ c ∈ w, p c = true)
    (hr : ∀ c ∈ rest.head?, p c = false) :
    (w ++ rest).takeWhile p = w ∧ (w ++ rest).dropWhile p = rest := by
  rw [List.takeWhile_append_of_pos hw, List.dropWhile_append_of_pos hw]
  cases rest with
  | nil => simp
  | cons c rest =>
    have hc : p c = false := hr c rfl
    simp [hc]

theorem head?_dropWhile_eq_false {p : Char → Bool} {cs : List Char} :
    ∀ c ∈ (cs.dropWhile p).head?, p c = false := by
  intro c hc
  have h := List.head?_dropWhile_not p cs
  rw [Option.mem_def.mp hc] at h
  simpa using h

namespace Piece

theorem ofHead_blank {c : Char} (h : isBlank c = true) (cs : List Char) :
    ofHead c cs = ⟨.blank, c, []⟩ := by
  rw [ofHead, if_pos h]

/-- A comment goes up to the end of its line. -/
theorem ofHead_comment (cs : List Char) :
    ofHead '#' cs = ⟨.comment, '#', cs.takeWhile (· ≠ '\n')⟩ := by
  rw [ofHead, if_neg (by decide), if_pos rfl]

/-- A word is as long as can be. -/
theorem ofHead_word {c : Char} (h : isStart c = true) (cs : List Char) :
    ofHead c cs = ofWord c (cs.takeWhile isContinue) (cs.dropWhile isContinue) := by
  have hb : isBlank c ≠ true := Bool.eq_false_iff.mp (isBlank_of_isStart h)
  have hn : c ≠ '#' := by
    intro hc
    subst hc
    exact absurd h (by decide)
  rw [ofHead, if_neg hb, if_neg hn, if_pos h]

theorem ofHead_zero (cs : List Char) : ofHead '0' cs = ⟨.numeral 0, '0', []⟩ := by
  rw [ofHead, if_neg (by decide), if_neg (by decide), if_neg (by decide), if_pos rfl]

/-- A numeral is as long as can be, unless it begins with a zero. -/
theorem ofHead_digits {c : Char} (h : c.isDigit = true) (h0 : c ≠ '0') (cs : List Char) :
    ofHead c cs = ⟨.numeral (Nat.ofDigitChars 10 (c :: cs.takeWhile Char.isDigit) 0), c,
      cs.takeWhile Char.isDigit⟩ := by
  have hs : isStart c ≠ true := Bool.eq_false_iff.mp (isStart_of_isDigit h)
  have hb : isBlank c ≠ true := by
    intro hb
    have hcontinue := isContinue_of_isBlank hb
    rw [isContinue_of_isDigit h] at hcontinue
    cases hcontinue
  have hn : c ≠ '#' := by
    intro hc
    subst hc
    exact absurd h (by decide)
  rw [ofHead, if_neg hb, if_neg hn, if_neg hs, if_neg h0, if_pos h]

/-- What the scanner takes from the head of a text is a piece of its kind. -/
theorem pieceText_ofHead (c : Char) (cs : List Char) : ∃ rest, cs = (ofHead c cs).rest ++ rest ∧
    PieceText rest (ofHead c cs).kind (c :: (ofHead c cs).rest) := by
  by_cases hb : isBlank c = true
  · rw [ofHead_blank hb]
    exact ⟨cs, rfl, .blank hb⟩
  by_cases hn : c = '#'
  · subst hn
    rw [ofHead_comment]
    refine ⟨_, List.takeWhile_append_dropWhile.symm, .comment ?_ ?_⟩
    · intro hm
      simpa using List.mem_takeWhile_imp hm
    · intro d hd
      simpa using head?_dropWhile_eq_false d hd
  by_cases hs : isStart c = true
  · rw [ofHead_word hs]
    have hsplit := List.takeWhile_append_dropWhile (p := isContinue) (l := cs)
    have hend : EndsWord (cs.dropWhile isContinue) := head?_dropWhile_eq_false
    have hid : IsIdentifier (c :: cs.takeWhile isContinue) :=
      ⟨hs, fun d hd => List.mem_takeWhile_imp hd⟩
    unfold ofWord
    split
    · next o ho =>
      exact ⟨_, hsplit.symm, .opcode hid (spelled?_eq_some_iff_spells.mp ho) hend⟩
    · next ho =>
      have hname : IsName (c :: cs.takeWhile isContinue) := ⟨hid, spelled?_eq_none_iff.mp ho⟩
      split
      · next hcolon =>
        obtain ⟨rest, hrest⟩ := List.head?_eq_some_iff.mp hcolon
        refine ⟨rest, ?_, .label hname⟩
        rw [List.append_assoc, List.singleton_append, ← hrest, hsplit]
      · next hcolon => exact ⟨_, hsplit.symm, .name hname hend hcolon⟩
  by_cases h0 : c = '0'
  · subst h0
    rw [ofHead_zero]
    exact ⟨cs, rfl, .numeral .zero (.inl rfl)⟩
  by_cases hd : c.isDigit = true
  · rw [ofHead_digits hd h0]
    refine ⟨_, List.takeWhile_append_dropWhile.symm, .numeral (.digits hd h0 ?_) (.inr ?_)⟩
    · exact fun d hd => List.mem_takeWhile_imp hd
    · exact head?_dropWhile_eq_false
  · rw [ofHead, if_neg hb, if_neg hn, if_neg hs, if_neg h0, if_neg hd]
    simp only [Bool.not_eq_true] at hb hs hd
    exact ⟨cs, rfl, .symbol hb hn hs hd⟩

end Piece

theorem ofWord_of_spells {o : Opcode} {c : Char} {t : List Char} (h : Spells o (c :: t))
    (after : List Char) : Piece.ofWord c t after = ⟨.opcode o, c, t⟩ := by
  rw [Piece.ofWord, spelled?_eq_some_iff_spells.mpr h]

theorem ofHead_identifier {c : Char} {t rest : List Char} (h : IsIdentifier (c :: t))
    (hr : EndsWord rest) : Piece.ofHead c (t ++ rest) = Piece.ofWord c t rest := by
  obtain ⟨ht, hd⟩ := span_append h.2 hr
  rw [Piece.ofHead_word h.1, ht, hd]

/-- The scanner takes no more and no less than a piece, whatever follows it. -/
theorem ofHead_of_pieceText {k : Kind} {c : Char} {t rest : List Char}
    (h : PieceText rest k (c :: t)) : Piece.ofHead c (t ++ rest) = ⟨k, c, t⟩ := by
  generalize hw : c :: t = w at h
  cases h with
  | blank hb =>
    obtain ⟨rfl, rfl⟩ := List.cons_eq_cons.mp hw
    exact Piece.ofHead_blank hb _
  | comment ht hr =>
    obtain ⟨rfl, rfl⟩ := List.cons_eq_cons.mp hw
    have hline : ∀ d ∈ t, (d ≠ '\n' : Bool) = true := by
      intro d hd
      simpa using ne_of_mem_of_not_mem hd ht
    have hend : ∀ d ∈ rest.head?, (d ≠ '\n' : Bool) = false := by
      intro d hd
      simpa using hr d hd
    rw [Piece.ofHead_comment, (span_append hline hend).1]
  | label hn =>
    obtain ⟨d, n, rfl, -⟩ := isIdentifier_cases hn.1
    obtain ⟨rfl, rfl⟩ := List.cons_eq_cons.mp hw
    change Piece.ofHead c ((n ++ [':']) ++ rest) = _
    rw [List.append_assoc, List.singleton_append,
      ofHead_identifier hn.1 (endsWord_colon rest), Piece.ofWord,
      spelled?_eq_none_iff.mpr hn.2]
    exact if_pos rfl
  | opcode hi ho hr =>
    subst hw
    rw [ofHead_identifier hi hr, ofWord_of_spells ho]
  | name hn hr hcolon =>
    subst hw
    rw [ofHead_identifier hn.1 hr, Piece.ofWord, spelled?_eq_none_iff.mpr hn.2]
    exact if_neg hcolon
  | numeral hn hr =>
    cases hn with
    | zero =>
      obtain ⟨rfl, rfl⟩ := List.cons_eq_cons.mp hw
      exact Piece.ofHead_zero _
    | digits hd h0 hds =>
      obtain ⟨rfl, rfl⟩ := List.cons_eq_cons.mp hw
      -- only a zero can have a digit behind it
      have hend := hr.resolve_left fun he => h0 (List.cons_eq_cons.mp he).1
      rw [Piece.ofHead_digits hd h0, (span_append hds hend).1]
  | symbol hb hn hs hd =>
    obtain ⟨rfl, rfl⟩ := List.cons_eq_cons.mp hw
    have h0 : c ≠ '0' := by
      intro hc
      subst hc
      exact absurd hd (by decide)
    simp [Piece.ofHead, hb, hn, hs, hd, h0]

theorem pieceText_ne_nil {k : Kind} {w rest : List Char} (h : PieceText rest k w) : w ≠ [] := by
  cases h with
  | label hn => exact List.append_ne_nil_of_right_ne_nil _ (by simp)
  | opcode hi =>
    obtain ⟨c, t, rfl, -⟩ := isIdentifier_cases hi
    exact List.cons_ne_nil c t
  | name hn =>
    obtain ⟨c, t, rfl, -⟩ := isIdentifier_cases hn.1
    exact List.cons_ne_nil c t
  | numeral hn =>
    cases hn with
    | zero | digits => exact List.cons_ne_nil _ _
  | blank | comment | symbol => simp

/-- A piece at the head of a text is scanned as such. -/
theorem scan_append {k : Kind} {w rest : List Char} (h : PieceText rest k w) :
    ∃ p : Piece, p.kind = k ∧ p.letters = w ∧ scan (w ++ rest) = p :: scan rest := by
  obtain ⟨c, t, rfl⟩ := List.exists_cons_of_ne_nil (pieceText_ne_nil h)
  refine ⟨⟨k, c, t⟩, rfl, rfl, ?_⟩
  rw [List.cons_append, scan_cons, ofHead_of_pieceText h, List.drop_left]

/-- A text is empty or has a piece at its head. -/
theorem scan_cases (cs : List Char) : cs = [] ∨ ∃ (p : Piece) (rest : List Char),
    cs = p.letters ++ rest ∧ PieceText rest p.kind p.letters ∧ scan cs = p :: scan rest := by
  cases cs with
  | nil => exact .inl rfl
  | cons c cs =>
    obtain ⟨rest, hrest, hp⟩ := Piece.pieceText_ofHead c cs
    have hl : (Piece.ofHead c cs).letters = c :: (Piece.ofHead c cs).rest := by
      rw [Piece.letters, Piece.ofHead_first]
    refine .inr ⟨Piece.ofHead c cs, rest, ?_, hl ▸ hp, ?_⟩
    · rw [hl, List.cons_append, ← hrest]
    · rw [scan_cons, drop_length_of_append hrest.symm]

end BlockMachine.Source
