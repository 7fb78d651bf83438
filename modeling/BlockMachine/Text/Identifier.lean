import BlockMachine.Text.Blank
import BlockMachine.Text.IdentifierRanges

namespace BlockMachine.Text

def isStart (c : Char) : Bool :=
  if c.toNat < 0x80 then c.isAlpha || c == '_' else inRanges identifierStartRanges c

def isContinue (c : Char) : Bool :=
  isStart c || if c.toNat < 0x80 then c.isDigit else inRanges identifierExtraRanges c

def IsIdentifier : List Char → Prop
  | [] => False
  | c :: rest => isStart c = true ∧ ∀ d ∈ rest, isContinue d = true

theorem isContinue_of_isStart {c : Char} (h : isStart c = true) : isContinue c = true := by
  simp [isContinue, h]

theorem IsIdentifier.isContinue {w : List Char} (h : IsIdentifier w) :
    ∀ c ∈ w, isContinue c = true := by
  cases w with
  | nil => exact h.elim
  | cons c t => exact List.forall_mem_cons.mpr ⟨isContinue_of_isStart h.1, h.2⟩

/-- A blank ends every identifier. -/
theorem isContinue_of_isBlank {c : Char} (h : isBlank c = true) : isContinue c = false := by
  by_cases hc : c.toNat < 0x80
  · revert h
    exact ascii_forall (P := fun c => isBlank c = true → isContinue c = false) (by decide) hc
  · -- the tables have no blank in any of their ranges
    have hs : inRanges identifierStartRanges c = false := inRanges_eq_false (by decide +kernel) h
    have he : inRanges identifierExtraRanges c = false := inRanges_eq_false (by decide +kernel) h
    simp [isContinue, isStart, hc, hs, he]

theorem toNat_lt_of_isDigit {c : Char} (h : c.isDigit = true) : c.toNat < 0x80 := by
  have hc : c.toNat ≤ 57 := (Char.isDigit_iff_toNat.mp h).2
  omega

/-- A digit continues every identifier. -/
theorem isContinue_of_isDigit {c : Char} (h : c.isDigit = true) : isContinue c = true := by
  simp [isContinue, toNat_lt_of_isDigit h, h]

/-- A digit begins no identifier. -/
theorem isStart_of_isDigit {c : Char} (h : c.isDigit = true) : isStart c = false := by
  have hc := toNat_lt_of_isDigit h
  revert h
  exact ascii_forall (P := fun c => c.isDigit = true → isStart c = false) (by decide) hc

end BlockMachine.Text
