namespace BlockMachine.Text

def inRanges (ranges : List (Nat × Nat)) (c : Char) : Bool :=
  ranges.any fun r => r.1 ≤ c.toNat && c.toNat ≤ r.2

theorem inRanges_iff {ranges : List (Nat × Nat)} {c : Char} :
    inRanges ranges c = true ↔ ∃ r ∈ ranges, r.1 ≤ c.toNat ∧ c.toNat ≤ r.2 := by
  simp [inRanges]

/-- Two classes have no character in common if no two of their ranges meet. -/
theorem inRanges_eq_false {as bs : List (Nat × Nat)} {c : Char}
    (h : ∀ r ∈ as, ∀ s ∈ bs, r.2 < s.1 ∨ s.2 < r.1) (hc : inRanges as c = true) :
    inRanges bs c = false := by
  obtain ⟨r, hr, hlo, hhi⟩ := inRanges_iff.mp hc
  rw [Bool.eq_false_iff]
  intro hb
  obtain ⟨s, hs, hslo, hshi⟩ := inRanges_iff.mp hb
  have := h r hr s hs
  omega

/-- What holds of the ASCII characters one by one holds of each of them. -/
theorem ascii_forall {P : Char → Prop} (h : ∀ n < 0x80, P (Char.ofNat n)) {c : Char}
    (hc : c.toNat < 0x80) : P c := by
  simpa using h c.toNat hc

end BlockMachine.Text
