import Mathlib.Data.List.Basic
import BlockMachine.Source.Statement

/-! The grammar of source texts, said without the reader. A part of a text is given together
with what follows it, so that words and comments cannot be cut short. -/
namespace BlockMachine.Source

open Text

def Spells (o : Opcode) (w : List Char) : Prop := Opcode.fold w = o.name.toList

def IsName (w : List Char) : Prop := IsIdentifier w ∧ ∀ o, ¬Spells o w

def EndsWord (rest : List Char) : Prop := ∀ c ∈ rest.head?, isContinue c = false

def Blanks (b : List Char) : Prop := ∀ c ∈ b, isBlank c = true

/-- Blanks and comments before `rest`. A comment goes up to the end of the line or the text. -/
inductive Gap (rest : List Char) : List Char → Prop
  | nil : Gap rest []
  | blank {c g} : isBlank c = true → Gap rest g → Gap rest (c :: g)
  | comment {t g} : '\n' ∉ t → (∀ c ∈ (g ++ rest).head?, c = '\n') → Gap rest g →
      Gap rest ('#' :: (t ++ g))

inductive Numeral : List Char → Nat → Prop
  | zero : Numeral ['0'] 0
  | digits {c ds} : c.isDigit = true → c ≠ '0' → (∀ d ∈ ds, d.isDigit = true) →
      Numeral (c :: ds) (Nat.ofDigitChars 10 (c :: ds) 0)

inductive LabelText : Option Label → List Char → Prop
  | absent : LabelText none []
  | present {n b} : IsName n → EndsWord (':' :: b) → Blanks b →
      LabelText (some (.ofList n)) (n ++ ':' :: b)

inductive OperandText (rest : List Char) : Option Operand → List Char → Prop
  | absent : OperandText rest none []
  | name {b w b'} : Blanks b → IsName w → EndsWord (b' ++ rest) → Blanks b' →
      OperandText rest (some (.name (.ofList w))) (b ++ (w ++ b'))
  | cell {b ds b' n} : Blanks b → Numeral ds n → n < cellBound → Blanks b' →
      OperandText rest (some (.cell n)) (b ++ (ds ++ b'))

inductive BlockText (rest : List Char) : Opcode → Option Operand → List Char → Prop
  | intro {o w a t} : IsIdentifier w → Spells o w → EndsWord (t ++ rest) →
      OperandText rest a t → BlockText rest o a (w ++ t)

abbrev Content := Option Label × Opcode × Option Operand

def Statement.content (s : Statement) : Content := (s.label, s.opcode, s.operand)

inductive StatementText (rest : List Char) : Content → List Char → Prop
  | intro {l lt o a bt} : LabelText l lt → BlockText rest o a bt →
      StatementText rest (l, o, a) (lt ++ bt)

/-- The text is a gap, a statement, a gap and so on up to a last gap, and the statements say
this. -/
inductive Cut : List Content → List Char → Prop
  | done {g} : Gap [] g → Cut [] g
  | statement {g st rest t ts} : Gap (st ++ rest) g → StatementText rest t st → Cut ts rest →
      Cut (t :: ts) (g ++ (st ++ rest))

theorem blanks_nil : Blanks [] := List.forall_mem_nil _

theorem blanks_cons {c : Char} {b : List Char} : Blanks (c :: b) ↔ isBlank c = true ∧ Blanks b :=
  List.forall_mem_cons

theorem spelled?_eq_some_iff_spells {w : List Char} {o : Opcode} :
    Opcode.spelled? w = some o ↔ Spells o w := by
  rw [Opcode.spelled?_eq_some_iff, Spells, eq_comm]

/-- No opcode is found in just those words that spell none. -/
theorem spelled?_eq_none_iff {w : List Char} :
    Opcode.spelled? w = none ↔ ∀ o, ¬Spells o w := by
  rw [Option.eq_none_iff_forall_ne_some]
  exact forall_congr' fun o => not_congr spelled?_eq_some_iff_spells

/-- The name of an opcode is read as a word. -/
theorem isIdentifier_name (o : Opcode) : IsIdentifier o.name.toList := by
  cases o <;> exact ⟨by decide, List.all_eq_true.mp (by decide)⟩

theorem spells_name (o : Opcode) : Spells o o.name.toList :=
  spelled?_eq_some_iff_spells.mp (Opcode.spelled?_name o)

/-- No blank begins a word. -/
theorem isBlank_of_isStart {c : Char} (h : isStart c = true) : isBlank c = false := by
  by_contra hb
  have := isContinue_of_isBlank (eq_true_of_ne_false hb)
  simp [isContinue_of_isStart h] at this

theorem isIdentifier_cases {w : List Char} (h : IsIdentifier w) :
    ∃ c t, w = c :: t ∧ isStart c = true ∧ ∀ d ∈ t, isContinue d = true := by
  cases w with
  | nil => exact h.elim
  | cons c t => exact ⟨c, t, rfl, h.1, h.2⟩

theorem Numeral.isDigit {ds : List Char} {n : Nat} (h : Numeral ds n) :
    ∀ d ∈ ds, d.isDigit = true := by
  cases h with
  | zero => simp
  | digits hd _ hds => exact List.forall_mem_cons.mpr ⟨hd, hds⟩

theorem endsWord_cons {c : Char} {rest : List Char} :
    EndsWord (c :: rest) ↔ isContinue c = false := by
  simp [EndsWord]

/-- A colon ends every word. -/
theorem endsWord_colon (rest : List Char) : EndsWord (':' :: rest) :=
  endsWord_cons.mpr (by decide)

end BlockMachine.Source
