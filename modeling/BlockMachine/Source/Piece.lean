import BlockMachine.Opcode
import BlockMachine.Text.Blank
import BlockMachine.Text.Identifier

namespace BlockMachine.Source

open Text

inductive Kind where
  | blank
  | comment
  /-- A name directly followed by a colon, which is part of the piece. -/
  | label (name : String)
  | opcode (o : Opcode)
  | name (word : String)
  /-- Zero, or digits of which the first is not zero. -/
  | numeral (value : Nat)
  | symbol
  deriving DecidableEq, Repr

structure Piece where
  kind : Kind
  first : Char
  rest : List Char := []
  deriving DecidableEq, Repr

namespace Piece

def letters (p : Piece) : List Char := p.first :: p.rest

def size (p : Piece) : Nat := p.letters.foldl (· + ·.utf8Size) 0

def ofWord (c : Char) (rest after : List Char) : Piece :=
  match Opcode.spelled? (c :: rest) with
  | some o => ⟨.opcode o, c, rest⟩
  | none =>
    if after.head? = some ':' then ⟨.label (String.ofList (c :: rest)), c, rest ++ [':']⟩
    else ⟨.name (String.ofList (c :: rest)), c, rest⟩

def ofHead (c : Char) (cs : List Char) : Piece :=
  if isBlank c then ⟨.blank, c, []⟩
  else if c = '#' then ⟨.comment, c, cs.takeWhile (· ≠ '\n')⟩
  else if isStart c then ofWord c (cs.takeWhile isContinue) (cs.dropWhile isContinue)
  else if c = '0' then ⟨.numeral 0, c, []⟩
  else if c.isDigit then
    let digits := cs.takeWhile Char.isDigit
    ⟨.numeral (Nat.ofDigitChars 10 (c :: digits) 0), c, digits⟩
  else ⟨.symbol, c, []⟩

theorem takeWhile_isPrefix (p : Char → Bool) (cs : List Char) : cs.takeWhile p <+: cs :=
  ⟨cs.dropWhile p, List.takeWhile_append_dropWhile⟩

theorem ofWord_rest (c : Char) (rest after : List Char) :
    (ofWord c rest after).rest = rest ∨
      (ofWord c rest after).rest = rest ++ [':'] ∧ after.head? = some ':' := by
  unfold ofWord
  split
  · exact .inl rfl
  · split
    · next h => exact .inr ⟨rfl, h⟩
    · exact .inl rfl

theorem ofWord_first (c : Char) (rest after : List Char) : (ofWord c rest after).first = c := by
  unfold ofWord
  split
  · rfl
  · split <;> rfl

theorem ofHead_first (c : Char) (cs : List Char) : (ofHead c cs).first = c := by
  unfold ofHead
  split
  · rfl
  · split
    · rfl
    · split
      · exact ofWord_first ..
      · split
        · rfl
        · split <;> rfl

/-- A piece takes its letters from the front of the text. -/
theorem ofHead_rest_isPrefix (c : Char) (cs : List Char) : (ofHead c cs).rest <+: cs := by
  unfold ofHead
  split
  · exact List.nil_prefix
  · split
    · exact takeWhile_isPrefix _ cs
    · split
      · rcases ofWord_rest c (cs.takeWhile isContinue) (cs.dropWhile isContinue) with h | ⟨h, hc⟩
        · rw [h]; exact takeWhile_isPrefix _ cs
        · -- a label takes the colon, too, which is the first character behind the name
          rw [h]
          obtain ⟨after, ha⟩ : ∃ after, cs.dropWhile isContinue = ':' :: after := by
            cases hd : cs.dropWhile isContinue with
            | nil => simp [hd] at hc
            | cons d ds => exact ⟨ds, by simpa [hd] using hc⟩
          refine ⟨after, ?_⟩
          rw [List.append_assoc, List.singleton_append, ← ha]
          exact List.takeWhile_append_dropWhile
      · split
        · exact List.nil_prefix
        · split
          · exact takeWhile_isPrefix _ cs
          · exact List.nil_prefix

end Piece

def scanFrom : Nat → List Char → List Piece
  | _, [] => []
  | skip + 1, _ :: cs => scanFrom skip cs
  | 0, c :: cs => Piece.ofHead c cs :: scanFrom (Piece.ofHead c cs).rest.length cs

def scan (text : List Char) : List Piece := scanFrom 0 text

/-- To skip characters is to scan what is behind them. -/
theorem scanFrom_eq_scan_drop (skip : Nat) (cs : List Char) :
    scanFrom skip cs = scan (cs.drop skip) := by
  induction cs generalizing skip with
  | nil => simp [scan, scanFrom]
  | cons c cs ih =>
    cases skip with
    | zero => rfl
    | succ skip => simpa [scanFrom] using ih skip

theorem scan_nil : scan [] = [] := rfl

/-- The scanner takes the piece at the head of the text and goes on behind it. -/
theorem scan_cons (c : Char) (cs : List Char) :
    scan (c :: cs) = Piece.ofHead c cs :: scan (cs.drop (Piece.ofHead c cs).rest.length) := by
  rw [scan, scanFrom, scanFrom_eq_scan_drop]

theorem drop_length_of_append {p after cs : List Char} (h : p ++ after = cs) :
    cs.drop p.length = after := h ▸ List.drop_left

/-- No character is lost, added or moved. -/
theorem flatMap_letters_scan (cs : List Char) : (scan cs).flatMap Piece.letters = cs := by
  match cs with
  | [] => rfl
  | c :: cs =>
    obtain ⟨after, ha⟩ := Piece.ofHead_rest_isPrefix c cs
    have hd := drop_length_of_append ha
    have hl : after.length < (c :: cs).length := by
      have := congrArg List.length ha
      rw [List.length_append] at this
      rw [List.length_cons]; omega
    rw [scan_cons, hd, List.flatMap_cons, flatMap_letters_scan after, Piece.letters,
      Piece.ofHead_first, List.cons_append, ha]
termination_by cs.length

end BlockMachine.Source
