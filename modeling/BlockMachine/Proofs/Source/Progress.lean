import Mathlib.Data.List.Induction
import BlockMachine.Proofs.Source.Stretches

namespace BlockMachine.Source

/-- From between two statements at `off`, the reader has taken these pieces, has handed out these
statements, and this is where it is now. -/
inductive Reaches (off : Nat) : List Piece → List Statement → Progress → Prop
  | start : Reaches off [] [] .between
  | read {ps ss st p out next} : Reaches off ps ss st →
      st.read (off + extent ps) p = .ok (out, next) →
      Reaches off (ps ++ [p]) (ss ++ out.toList) next

variable {off : Nat} {ps : List Piece} {ss : List Statement} {st : Progress}

theorem parse_lettersOf {rest : List Char} (h : Stands rest ps) :
    parse (.ofList (lettersOf ps)) = statementsFrom 0 .between ps := by
  rw [parse, String.toList_ofList, h.scan_eq]

theorem statementsFrom_cons_of_read {p : Piece} {out : Option Statement} {next : Progress}
    (h : st.read off p = .ok (out, next)) (qs : List Piece) : statementsFrom off st (p :: qs) =
      (out.toList ++ ·) <$> statementsFrom (off + p.size) next qs := by
  rw [statementsFrom, h]
  rfl

theorem statementsFrom_cons_of_error {p : Piece} {e : SyntaxError} (h : st.read off p = .error e)
    (qs : List Piece) : statementsFrom off st (p :: qs) = .error e := by
  rw [statementsFrom, h]
  rfl

/-- What is read from here on adds to what the reader has handed out. -/
theorem Reaches.statementsFrom_append (h : Reaches off ps ss st) (qs : List Piece) :
    statementsFrom off .between (ps ++ qs) =
      (ss ++ ·) <$> statementsFrom (off + extent ps) st qs := by
  induction h generalizing qs with
  | start => simp [extent]
  | @read ps ss st p out next _ hread ih =>
    rw [List.append_assoc, List.singleton_append, ih, statementsFrom_cons_of_read hread,
      extent_append, extent_singleton, ← Nat.add_assoc]
    cases statementsFrom (off + extent ps + p.size) next qs with
    | error e => rfl
    | ok us => exact congrArg Except.ok (List.append_assoc ..).symm

/-- A piece that stops the reader does so whatever follows it. -/
theorem Reaches.eq_error (h : Reaches off ps ss st) {p : Piece} {e : SyntaxError}
    (hread : st.read (off + extent ps) p = .error e) (qs : List Piece) :
    statementsFrom off .between (ps ++ p :: qs) = .error e := by
  rw [h.statementsFrom_append, statementsFrom_cons_of_error hread]
  rfl

/-- If the text ends here, what the reader still holds is all that is left to hand out. -/
theorem Reaches.finish (h : Reaches off ps ss st) : statementsFrom off .between ps =
    (ss ++ ·) <$> st.finish (off + extent ps) := by
  have hend := h.statementsFrom_append []
  rw [List.append_nil] at hend
  exact hend

/-- The reader takes all of the pieces, or one of them stops it. -/
theorem reaches_or_fails (off : Nat) (ps : List Piece) :
    (∃ ss st, Reaches off ps ss st) ∨
    ∃ pre p post ss st e, ps = pre ++ p :: post ∧ Reaches off pre ss st ∧
      st.read (off + extent pre) p = .error e := by
  -- the state in which a piece is read depends on all pieces before it, so pieces are added at the end
  induction ps using List.reverseRecOn with
  | nil => exact .inl ⟨[], .between, .start⟩
  | append_singleton ps p ih =>
    rcases ih with ⟨ss, st, h⟩ | ⟨pre, q, post, ss, st, e, rfl, h, he⟩
    · cases hread : st.read (off + extent ps) p with
      | error e => exact .inr ⟨ps, p, [], ss, st, e, rfl, h, hread⟩
      | ok r => exact .inl ⟨_, r.2, .read h hread⟩
    · exact .inr ⟨pre, q, post ++ [p], ss, st, e, by simp, h, he⟩

theorem reaches_of_ok {us : List Statement} (h : statementsFrom off .between ps = .ok us) :
    ∃ ss st held, Reaches off ps ss st ∧ st.finish (off + extent ps) = .ok held ∧
      us = ss ++ held := by
  rcases reaches_or_fails off ps with ⟨ss, st, hreach⟩ | ⟨pre, p, post, ss, st, e, rfl, hreach, he⟩
  · rw [hreach.finish] at h
    cases hend : st.finish (off + extent ps) with
    | error e =>
      rw [hend] at h
      cases h
    | ok held =>
      rw [hend] at h
      cases h
      exact ⟨ss, st, held, hreach, hend, rfl⟩
  · rw [hreach.eq_error he] at h
    cases h

/-- An error comes from the first piece that cannot be taken, or from the end of the text. -/
theorem reaches_of_error {e : SyntaxError} (h : statementsFrom off .between ps = .error e) :
    (∃ pre p post ss st, ps = pre ++ p :: post ∧ Reaches off pre ss st ∧
      st.read (off + extent pre) p = .error e) ∨
    ∃ ss st, Reaches off ps ss st ∧ st.finish (off + extent ps) = .error e := by
  rcases reaches_or_fails off ps with ⟨ss, st, hreach⟩ | ⟨pre, p, post, ss, st, f, rfl, hreach, hf⟩
  · rw [hreach.finish] at h
    cases hend : st.finish (off + extent ps) with
    | error f =>
      rw [hend] at h
      cases h
      exact .inr ⟨ss, st, hreach, hend⟩
    | ok held =>
      rw [hend] at h
      cases h
  · rw [hreach.eq_error hf] at h
    cases h
    exact .inl ⟨pre, p, post, ss, st, rfl, hreach, hf⟩

end BlockMachine.Source
