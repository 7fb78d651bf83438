import BlockMachine.Proofs.Source.Progress

namespace BlockMachine

namespace Text

def upper (text : String) : String := .ofList (text.toList.map Char.toUpper)

/-- Beyond ASCII no character has another case here. -/
theorem toUpper_of_not_ascii {c : Char} (h : ¬c.toNat < 0x80) : c.toUpper = c := by
  apply dif_neg
  rintro ⟨-, hz⟩
  have hle : c.toNat ≤ 122 := UInt32.le_iff_toNat_le.mp hz
  omega

/-- What does not tell the two cases of an ASCII letter apart does so for no letter at all. -/
theorem apply_toUpper {α : Type} {f : Char → α}
    (h : ∀ n < 0x80, f (Char.ofNat n).toUpper = f (Char.ofNat n)) (c : Char) :
    f c.toUpper = f c := by
  by_cases hc : c.toNat < 0x80
  · exact ascii_forall (P := fun c => f c.toUpper = f c) h hc
  · rw [toUpper_of_not_ascii hc]

theorem isBlank_toUpper (c : Char) : isBlank c.toUpper = isBlank c := apply_toUpper (by decide) c

/-- A letter begins a word in either case. -/
theorem isStart_toUpper (c : Char) : isStart c.toUpper = isStart c := apply_toUpper (by decide) c

theorem isContinue_toUpper (c : Char) : isContinue c.toUpper = isContinue c :=
  apply_toUpper (by decide) c

theorem isDigit_toUpper (c : Char) : c.toUpper.isDigit = c.isDigit :=
  apply_toUpper (f := Char.isDigit) (by decide) c

/-- A letter takes up as many bytes in either case, so that no span moves. -/
theorem utf8Size_toUpper (c : Char) : c.toUpper.utf8Size = c.utf8Size :=
  apply_toUpper (f := Char.utf8Size) (by decide) c

theorem toUpper_toUpper (c : Char) : c.toUpper.toUpper = c.toUpper :=
  apply_toUpper (f := Char.toUpper) (by decide) c

/-- A character that is no letter is the upper case of itself alone. -/
theorem toUpper_eq_iff {d : Char}
    (h : ∀ n < 0x80, decide ((Char.ofNat n).toUpper = d) = decide (Char.ofNat n = d)) (c : Char) :
    c.toUpper = d ↔ c = d :=
  decide_eq_decide.mp (apply_toUpper (f := fun c => decide (c = d)) h c)

/-- Whatever has an upper case of its own can begin a word. -/
theorem isStart_of_toUpper_ne {c : Char} (h : c.toUpper ≠ c) : isStart c = true := by
  by_cases hc : c.toNat < 0x80
  · revert h
    exact ascii_forall (P := fun c => c.toUpper ≠ c → isStart c = true) (by decide) hc
  · exact absurd (toUpper_of_not_ascii hc) h

theorem toUpper_of_isDigit {c : Char} (h : c.isDigit = true) : c.toUpper = c := by
  by_contra hne
  have hstart := isStart_of_toUpper_ne hne
  rw [isStart_of_isDigit h] at hstart
  cases hstart

theorem utf8ByteSize_upper (text : String) : (upper text).utf8ByteSize = text.utf8ByteSize := by
  have hsize (cs : List Char) : (String.ofList (cs.map Char.toUpper)).utf8ByteSize =
      (String.ofList cs).utf8ByteSize := by
    induction cs with
    | nil => rfl
    | cons c cs ih =>
      rw [List.map_cons, String.ofList_cons, String.ofList_cons, String.utf8ByteSize_append,
        String.utf8ByteSize_append, ih, String.utf8ByteSize_singleton,
        String.utf8ByteSize_singleton, utf8Size_toUpper]
  rw [upper, hsize, String.ofList_toList]

end Text

namespace Source

open Text

def Kind.upper : Kind → Kind
  | .label l => .label (Text.upper l)
  | .name w => .name (Text.upper w)
  | k => k

def Piece.upper (p : Piece) : Piece := ⟨p.kind.upper, p.first.toUpper, p.rest.map Char.toUpper⟩

/-- An opcode is spelled alike in either case. -/
theorem spelled?_toUpper (w : List Char) :
    Opcode.spelled? (w.map Char.toUpper) = Opcode.spelled? w := by
  have hfold : Opcode.fold (w.map Char.toUpper) = Opcode.fold w := by
    rw [Opcode.fold, Opcode.fold, List.map_map]
    exact congrArg (List.map · w) (funext toUpper_toUpper)
  rw [Opcode.spelled?, hfold]
  rfl

namespace Piece

theorem size_upper (p : Piece) : p.upper.size = p.size := by
  have hletters : p.upper.letters = p.letters.map Char.toUpper := rfl
  rw [size, size, hletters, List.foldl_map]
  simp only [utf8Size_toUpper]

theorem ofWord_upper (c : Char) (t after : List Char) :
    ofWord c.toUpper (t.map Char.toUpper) (after.map Char.toUpper) = (ofWord c t after).upper := by
  have hword : String.ofList ((c :: t).map Char.toUpper) = Text.upper (.ofList (c :: t)) := by
    rw [Text.upper, String.toList_ofList]
  have hcolon : (after.map Char.toUpper).head? = some ':' ↔ after.head? = some ':' := by
    cases after with
    | nil => rfl
    | cons d after => simpa using toUpper_eq_iff (d := ':') (by decide) d
  rw [ofWord, ofWord, ← List.map_cons, spelled?_toUpper, hword]
  cases Opcode.spelled? (c :: t) with
  | some o => rfl
  | none =>
    simp only [hcolon]
    split
    · simp [upper, Kind.upper]
    · rfl

/-- The piece at the head of a text in upper case is the piece in upper case. -/
theorem ofHead_upper (c : Char) (cs : List Char) :
    ofHead c.toUpper (cs.map Char.toUpper) = (ofHead c cs).upper := by
  by_cases hb : isBlank c = true
  · rw [ofHead_blank hb, ofHead_blank ((isBlank_toUpper c).trans hb)]
    rfl
  by_cases hn : c = '#'
  · have hline : (fun d => decide (d ≠ '\n')) ∘ Char.toUpper = fun d => decide (d ≠ '\n') := by
      funext d
      exact decide_eq_decide.mpr (not_congr (toUpper_eq_iff (by decide) d))
    subst hn
    change ofHead '#' (cs.map Char.toUpper) = _
    rw [ofHead_comment, ofHead_comment, List.takeWhile_map, hline]
    rfl
  by_cases hs : isStart c = true
  · have hcontinue : isContinue ∘ Char.toUpper = isContinue := funext isContinue_toUpper
    rw [ofHead_word hs, ofHead_word ((isStart_toUpper c).trans hs), List.takeWhile_map,
      List.dropWhile_map, hcontinue]
    exact ofWord_upper ..
  have hc : c.toUpper = c := by
    by_contra hne
    exact hs (isStart_of_toUpper_ne hne)
  rw [hc]
  by_cases h0 : c = '0'
  · subst h0
    rw [ofHead_zero, ofHead_zero]
    rfl
  by_cases hd : c.isDigit = true
  · have hdigit : Char.isDigit ∘ Char.toUpper = Char.isDigit := funext isDigit_toUpper
    have hdigits : (cs.takeWhile Char.isDigit).map Char.toUpper = cs.takeWhile Char.isDigit := by
      calc (cs.takeWhile Char.isDigit).map Char.toUpper
        _ = (cs.takeWhile Char.isDigit).map id := by
          apply List.map_congr_left
          intro d hd'
          exact toUpper_of_isDigit (List.mem_takeWhile_imp hd')
        _ = cs.takeWhile Char.isDigit := List.map_id _
    rw [ofHead_digits hd h0, ofHead_digits hd h0, List.takeWhile_map, hdigit, hdigits, upper,
      hdigits, hc]
    rfl
  · rw [ofHead, if_neg hb, if_neg hn, if_neg hs, if_neg h0, if_neg hd, ofHead, if_neg hb,
      if_neg hn, if_neg hs, if_neg h0, if_neg hd, upper, hc]
    rfl

end Piece

def Kind.isWord : Kind → Bool
  | .label _ | .opcode _ | .name _ => true
  | .blank | .comment | .numeral _ | .symbol => false

def Piece.HasCaseInWords (p : Piece) : Prop := p.kind.isWord = false → p.first.toUpper = p.first

theorem isWord_ofHead {c : Char} (h : isStart c = true) (cs : List Char) :
    (Piece.ofHead c cs).kind.isWord = true := by
  rw [Piece.ofHead_word h, Piece.ofWord]
  split
  · rfl
  · split <;> rfl

theorem exists_ofHead_of_mem_scan {p : Piece} {cs : List Char} (h : p ∈ scan cs) :
    ∃ c rest, p = Piece.ofHead c rest := by
  rw [scan] at h
  generalize 0 = skip at h
  induction cs generalizing skip with
  | nil => simp [scanFrom] at h
  | cons c cs ih =>
    cases skip with
    | zero =>
      rcases List.mem_cons.mp h with rfl | h
      · exact ⟨c, cs, rfl⟩
      · exact ih _ h
    | succ skip => exact ih skip h

/-- No piece but a word begins with a character that has another case. -/
theorem hasCaseInWords_of_mem_scan {p : Piece} {cs : List Char} (h : p ∈ scan cs) :
    p.HasCaseInWords := by
  intro hword
  obtain ⟨c, rest, rfl⟩ := exists_ofHead_of_mem_scan h
  rw [Piece.ofHead_first]
  by_contra hne
  rw [isWord_ofHead (isStart_of_toUpper_ne hne)] at hword
  cases hword

/-- A text in upper case is cut where the text is. -/
theorem scan_upper (cs : List Char) : scan (cs.map Char.toUpper) = (scan cs).map Piece.upper := by
  rw [scan, scan]
  generalize 0 = skip
  induction cs generalizing skip with
  | nil => rfl
  | cons c cs ih =>
    cases skip with
    | zero =>
      have hlength : (Piece.ofHead c cs).upper.rest.length = (Piece.ofHead c cs).rest.length :=
        List.length_map _
      rw [List.map_cons, scanFrom, Piece.ofHead_upper, ih, hlength]
      rfl
    | succ skip => exact ih skip

def Operand.upper : Operand → Operand
  | .cell c => .cell c
  | .name l => .name (Text.upper l)

def Statement.upper (s : Statement) : Statement :=
  { s with label := s.label.map Text.upper, operand := s.operand.map Operand.upper }

def SyntaxFault.upper : SyntaxFault → SyntaxFault
  | .unknownOpcode w => .unknownOpcode (Text.upper w)
  | .noStatement c => .noStatement c
  | .noOpcode c => .noOpcode c
  | .unfinished => .unfinished

def SyntaxError.upper (e : SyntaxError) : SyntaxError := { e with fault := e.fault.upper }

def Progress.upper : Progress → Progress
  | between => between
  | labelled l start => labelled (Text.upper l) start
  | opened s => opened s.upper
  | filled s => filled s.upper

def upperResult {α : Type} (f : α → α) (r : Except SyntaxError α) : Except SyntaxError α :=
  (r.map f).mapError SyntaxError.upper

theorem operand?_upper (k : Kind) : k.upper.operand? = k.operand?.map Operand.upper := by
  cases k with
  | numeral n =>
    simp only [Kind.upper, Kind.operand?]
    split <;> rfl
  | blank | comment | label | opcode | name | symbol => rfl

variable {p : Piece}

theorem upper_kind_eq_blank_iff : p.upper.kind = .blank ↔ p.kind = .blank := by
  rw [Piece.upper]
  cases p.kind <;> simp [Kind.upper]

theorem begin_upper (hp : p.HasCaseInWords) (off : Nat) :
    Progress.begin off p.upper = upperResult Progress.upper (Progress.begin off p) := by
  have hsize := p.size_upper
  rw [Progress.begin, Progress.begin, hsize]
  cases hk : p.kind with
  | blank | comment | label | opcode | name =>
    simp only [Piece.upper, hk]
    rfl
  | numeral n | symbol =>
    have hfirst : p.first.toUpper = p.first := hp (by rw [hk]; rfl)
    simp only [Piece.upper, hk, hfirst]
    rfl

theorem afterLabel_upper (hp : p.HasCaseInWords) (l : Label) (start off : Nat) :
    Progress.afterLabel (Text.upper l) start off p.upper =
      upperResult Progress.upper (Progress.afterLabel l start off p) := by
  have hsize := p.size_upper
  rw [Progress.afterLabel, Progress.afterLabel, hsize]
  cases hk : p.kind with
  | blank | opcode =>
    simp only [Piece.upper, hk]
    rfl
  | label | name =>
    -- a label that is out of place is reported without its colon, so its size is not the piece's
    simp only [Piece.upper, hk, Kind.upper, utf8ByteSize_upper]
    rfl
  | comment | numeral | symbol =>
    have hfirst : p.first.toUpper = p.first := hp (by rw [hk]; rfl)
    simp only [Piece.upper, hk, hfirst]
    rfl

/-- The reader takes the same step in either case and says the same, in upper case. -/
theorem read_upper (hp : p.HasCaseInWords) (st : Progress) (off : Nat) :
    st.upper.read off p.upper =
      upperResult (fun r => (r.1.map Statement.upper, r.2.upper)) (st.read off p) := by
  cases st with
  | between =>
    simp only [Progress.upper, Progress.read, begin_upper hp]
    cases Progress.begin off p <;> rfl
  | labelled l start =>
    simp only [Progress.upper, Progress.read, afterLabel_upper hp]
    cases Progress.afterLabel l start off p <;> rfl
  | opened s =>
    have hkind : p.upper.kind = p.kind.upper := rfl
    simp only [Progress.upper, Progress.read, begin_upper hp, p.size_upper, hkind, operand?_upper]
    cases p.kind.operand? with
    | some a => rfl
    | none =>
      simp only [← hkind, upper_kind_eq_blank_iff, Option.map_none]
      split
      · rfl
      · cases Progress.begin off p <;> rfl
  | filled s =>
    simp only [Progress.upper, Progress.read, begin_upper hp, p.size_upper, upper_kind_eq_blank_iff]
    split
    · rfl
    · cases Progress.begin off p <;> rfl

/-- So it does from here on. -/
theorem statementsFrom_upper {ps : List Piece} (hps : ∀ p ∈ ps, p.HasCaseInWords)
    (st : Progress) (off : Nat) : statementsFrom off st.upper (ps.map Piece.upper) =
      upperResult (List.map Statement.upper) (statementsFrom off st ps) := by
  induction ps generalizing off st with
  | nil => cases st <;> rfl
  | cons p ps ih =>
    obtain ⟨hp, hps⟩ := List.forall_mem_cons.mp hps
    have hupper := read_upper hp st off
    cases hread : st.read off p with
    | error e =>
      rw [hread] at hupper
      rw [List.map_cons, statementsFrom_cons_of_error hread, statementsFrom_cons_of_error hupper]
      rfl
    | ok r =>
      obtain ⟨out, next⟩ := r
      rw [hread] at hupper
      rw [List.map_cons, statementsFrom_cons_of_read hread, statementsFrom_cons_of_read hupper,
        p.size_upper, ih hps]
      cases statementsFrom (off + p.size) next ps with
      | error e => rfl
      | ok us => cases out <;> rfl

/-- The case of ASCII letters has no say in how a text is read. In upper case the text has the same
statements at the same bytes, with the same opcodes and cells, and with its labels and names in upper
case; or it has the same error at the same bytes, about the same word in upper case. -/
theorem letter_case_is_not_structural (source : String) :
    parse (upper source) =
      ((parse source).map (List.map Statement.upper)).mapError SyntaxError.upper := by
  have hscan : scan (upper source).toList = (scan source.toList).map Piece.upper := by
    rw [upper, String.toList_ofList, scan_upper]
  rw [parse, parse, hscan]
  exact statementsFrom_upper (fun _ => hasCaseInWords_of_mem_scan) .between 0

/-- The letter beyond ASCII stays small. -/
example : parse (upper "É1: jump é2x") =
    .ok [⟨some "É1", .jump, some (.name "é2X"), ⟨0, 14⟩⟩] := by decide +kernel

end Source

end BlockMachine
