import BlockMachine.Proofs.Source.Progress
import BlockMachine.Proofs.Source.Reading

namespace BlockMachine.Source

def AreGap (ps : List Piece) : Prop := ∀ p ∈ ps, p.kind = .blank ∨ p.kind = .comment

theorem areGap_nil : AreGap [] := List.forall_mem_nil _

theorem statementsFrom_gap {ps : List Piece} (h : AreGap ps) (off : Nat) :
    statementsFrom off .between ps = .ok [] := by
  induction ps generalizing off with
  | nil => rfl
  | cons p ps ih =>
    obtain ⟨hp, hps⟩ := List.forall_mem_cons.mp h
    have hread : Progress.between.read off p = .ok (none, .between) := by
      rcases hp with hp | hp <;> simp [Progress.read, Progress.begin, hp]
    rw [statementsFrom_cons_of_read hread, ih hps]
    rfl

structure IsStatement (off : Nat) (ps : List Piece) (s : Statement) : Prop where
  nonempty : ps ≠ []
  span : s.span = ⟨off, off + extent ps⟩
  read : statementsFrom off .between ps = .ok [s]

inductive Laid : Nat → List Piece → List Statement → Prop
  | done {off gap} : AreGap gap → Laid off gap []
  | statement {off gap own ps s ss} : AreGap gap → IsStatement (off + extent gap) own s →
      Laid s.span.stop ps ss → Laid off (gap ++ (own ++ ps)) (s :: ss)

theorem Laid.gap {off : Nat} {ps gap : List Piece} {ss : List Statement} (h : Laid off ps ss)
    (hgap : AreGap gap) : Laid off (ps ++ gap) ss := by
  induction h with
  | done hg => exact .done (List.forall_mem_append.mpr ⟨hg, hgap⟩)
  | statement hg hs _ ih =>
    rw [List.append_assoc, List.append_assoc]
    exact .statement hg hs ih

theorem Laid.snoc {off : Nat} {ps own : List Piece} {ss : List Statement} {s : Statement}
    (h : Laid off ps ss) (hs : IsStatement (off + extent ps) own s) :
    Laid off (ps ++ own) (ss ++ [s]) := by
  induction h with
  | @done off gap hg =>
    have hlaid := Laid.statement hg hs (.done areGap_nil)
    simpa using hlaid
  | @statement off gap own' ps s' ss hg hs' _ ih =>
    rw [List.append_assoc, List.append_assoc]
    refine .statement hg hs' (ih ?_)
    have hoffset : s'.span.stop + extent ps = off + extent (gap ++ (own' ++ ps)) := by
      rw [hs'.span, extent_append, extent_append]
      change off + extent gap + extent own' + extent ps = _
      omega
    rw [hoffset]
    exact hs

/-- What the pieces amount to that the reader has taken so far: they are laid out, except that the
last of them may belong to a statement of which more is to come. -/
inductive Stage : List Piece → List Statement → Progress → Prop
  | between {ps ss} : Laid 0 ps ss → Stage ps ss .between
  | labelled {ps p blanks ss l} : Laid 0 ps ss → statementsFrom 0 .between ps = .ok ss →
      p.kind = .label l → (∀ q ∈ blanks, q.kind = .blank) →
      Reaches (extent ps) (p :: blanks) [] (.labelled l (extent ps)) →
      Stage (ps ++ p :: blanks) ss (.labelled l (extent ps))
  | opened {ps own blanks ss s} : Laid 0 ps ss → IsStatement (extent ps) own s →
      (∀ q ∈ blanks, q.kind = .blank) → Reaches (extent ps) (own ++ blanks) [] (.opened s) →
      Stage (ps ++ (own ++ blanks)) ss (.opened s)
  | filled {ps own ss s} : Laid 0 ps ss → IsStatement (extent ps) own s →
      Reaches (extent ps) own [] (.filled s) → Stage (ps ++ own) ss (.filled s)

variable {off : Nat} {ps own : List Piece} {ss : List Statement} {s : Statement} {p : Piece}
  {st next : Progress} {out : Option Statement}

/-- A statement that is held comes out if the text ends here. -/
theorem Reaches.isStatement (h : Reaches off own [] st) (hst : st = .opened s ∨ st = .filled s)
    (hown : own ≠ []) (hspan : s.span = ⟨off, off + extent own⟩) : IsStatement off own s := by
  refine ⟨hown, hspan, ?_⟩
  rw [h.finish]
  rcases hst with rfl | rfl <;> rfl

/-- A piece behind those that the reader has taken since a statement began. -/
theorem Reaches.read_behind (h : Reaches (extent ps) own [] st)
    (hread : st.read (extent (ps ++ own)) p = .ok (none, next)) :
    Reaches (extent ps) (own ++ [p]) [] next := by
  rw [extent_append] at hread
  exact .read h hread

/-- A statement that goes on to the end of one more piece. -/
theorem Reaches.isStatement_extendTo
    (h : Reaches (extent ps) (own ++ [p]) [] (.filled (s.extendTo (extent (ps ++ own) + p.size))))
    (hstart : s.span.start = extent ps) :
    IsStatement (extent ps) (own ++ [p]) (s.extendTo (extent (ps ++ own) + p.size)) := by
  apply h.isStatement (.inr rfl) (by simp)
  rw [extent_append, extent_append own, extent_singleton, Nat.add_assoc, ← hstart]
  rfl

theorem Laid.statement_snoc (h : Laid 0 ps ss) (hs : IsStatement (extent ps) own s) :
    Laid 0 (ps ++ own) (ss ++ [s]) := by
  rw [← Nat.zero_add (extent ps)] at hs
  exact h.snoc hs

/-- Of a statement that has just got its opcode, all pieces are its own. -/
theorem Stage.of_opcode (h : Laid 0 ps ss) (hs : IsStatement (extent ps) own s)
    (hreach : Reaches (extent ps) own [] (.opened s)) : Stage (ps ++ own) ss (.opened s) := by
  rw [← List.append_nil own] at hreach ⊢
  exact .opened h hs (List.forall_mem_nil _) hreach

theorem stage_of_begin (h : Laid 0 ps ss) (hread : statementsFrom 0 .between ps = .ok ss)
    (hbegin : Progress.begin (extent ps) p = .ok next) : Stage (ps ++ [p]) ss next := by
  have hreach : Reaches (extent ps) [p] [] next := by
    have hfirst : Progress.between.read (extent ps + extent []) p = .ok (none, next) := by
      rw [Progress.read]
      change (none, ·) <$> Progress.begin (extent ps) p = _
      rw [hbegin]
      rfl
    exact .read .start hfirst
  rw [Progress.begin] at hbegin
  cases hk : p.kind with
  | blank | comment =>
    rw [hk] at hbegin
    cases hbegin
    exact .between (h.gap (by simp [AreGap, hk]))
  | label l =>
    rw [hk] at hbegin
    cases hbegin
    exact .labelled h hread hk (by simp) hreach
  | opcode o =>
    rw [hk] at hbegin
    cases hbegin
    have hs := hreach.isStatement (.inl rfl) (by simp) (by rw [extent_singleton])
    exact .of_opcode h hs hreach
  | name | numeral | symbol =>
    rw [hk] at hbegin
    cases hbegin

/-- Where a statement can begin, all pieces so far are laid out. What the reader holds comes out
with the piece that begins one. -/
theorem Stage.closed (h : Stage ps ss st) (hst : ∀ l start, st ≠ .labelled l start) (off : Nat) :
    ∃ held, st.finish off = .ok held ∧ Laid 0 ps (ss ++ held) := by
  cases h with
  | between h => exact ⟨[], rfl, by simpa using h⟩
  | labelled => exact absurd rfl (hst _ _)
  | @opened ps own blanks ss s h hs hblanks _ =>
    have hlaid := (h.statement_snoc hs).gap fun q hq => .inl (hblanks q hq)
    rw [List.append_assoc] at hlaid
    exact ⟨[s], rfl, hlaid⟩
  | @filled ps own ss s h hs _ => exact ⟨[s], rfl, h.statement_snoc hs⟩

/-- A piece that goes between two statements or begins one. What the reader held comes out before
it. -/
theorem Stage.begin {held : List Statement} (h : Stage ps ss st) (hreach : Reaches 0 ps ss st)
    (hst : ∀ l start, st ≠ .labelled l start) (hheld : ∀ off, st.finish off = .ok held)
    (hnext : Progress.begin (extent ps) p = .ok next) : Stage (ps ++ [p]) (ss ++ held) next := by
  obtain ⟨held', hheld', hlaid⟩ := h.closed hst 0
  rw [hheld] at hheld'
  cases hheld'
  have hall : statementsFrom 0 .between ps = .ok (ss ++ held) := by
    rw [hreach.finish, hheld]
    rfl
  exact stage_of_begin hlaid hall hnext

theorem forall_mem_snoc {P : Piece → Prop} (h : ∀ q ∈ ps, P q) (hp : P p) : ∀ q ∈ ps ++ [p], P q :=
  List.forall_mem_append.mpr ⟨h, List.forall_mem_singleton.mpr hp⟩

theorem Stage.read (h : Stage ps ss st) (hreach : Reaches 0 ps ss st)
    (hread : st.read (extent ps) p = .ok (out, next)) : Stage (ps ++ [p]) (ss ++ out.toList) next := by
  cases h with
  | between h =>
    obtain ⟨rfl, hnext⟩ := ok_of_map_pair hread
    exact (Stage.between h).begin hreach (by simp) (fun _ => rfl) hnext
  | @labelled ps q blanks ss l h hall hq hblanks hown =>
    obtain ⟨rfl, hnext⟩ := ok_of_map_pair hread
    have hmore := hown.read_behind hread
    rw [List.append_assoc, Option.toList_none, List.append_nil]
    rw [Progress.afterLabel] at hnext
    cases hk : p.kind with
    | blank =>
      rw [hk] at hnext
      cases hnext
      exact .labelled h hall hq (forall_mem_snoc hblanks hk) hmore
    | opcode o =>
      rw [hk] at hnext
      cases hnext
      have hspan : extent (ps ++ q :: blanks) + p.size = extent ps + extent (q :: blanks ++ [p]) := by
        rw [extent_append, extent_append, extent_singleton, Nat.add_assoc]
      have hs := hmore.isStatement (.inl rfl) (by simp) (by rw [hspan])
      exact .of_opcode h hs hmore
    | comment | label | name | numeral | symbol =>
      rw [hk] at hnext
      cases hnext
  | @opened ps own blanks ss s h hs hblanks hown =>
    have hread' := hread
    rw [Progress.read] at hread'
    split at hread'
    · next a ha =>
      cases hread'
      have hmore := hown.read_behind hread
      have hstart : s.span.start = extent ps := by rw [hs.span]
      have hfilled := hmore.isStatement_extendTo hstart
      rw [List.append_assoc, Option.toList_none, List.append_nil]
      exact .filled h hfilled hmore
    · split at hread'
      · next hk =>
        cases hread'
        have hmore := hown.read_behind hread
        rw [List.append_assoc] at hmore
        rw [List.append_assoc, List.append_assoc, Option.toList_none, List.append_nil]
        exact .opened h hs (forall_mem_snoc hblanks hk) hmore
      · obtain ⟨rfl, hnext⟩ := ok_of_map_pair hread'
        exact (Stage.opened h hs hblanks hown).begin hreach (by simp) (fun _ => rfl) hnext
  | @filled ps own ss s h hs hown =>
    have hread' := hread
    rw [Progress.read] at hread'
    split at hread'
    · next hk =>
      cases hread'
      have hmore := hown.read_behind hread
      have hstart : s.span.start = extent ps := by rw [hs.span]
      have hfilled := hmore.isStatement_extendTo hstart
      rw [List.append_assoc, Option.toList_none, List.append_nil]
      exact .filled h hfilled hmore
    · obtain ⟨rfl, hnext⟩ := ok_of_map_pair hread'
      exact (Stage.filled h hs hown).begin hreach (by simp) (fun _ => rfl) hnext

/-- Wherever the reader has got to, what it has taken is laid out in this way. -/
theorem Reaches.stage (h : Reaches 0 ps ss st) : Stage ps ss st := by
  induction h with
  | start => exact .between (.done areGap_nil)
  | read h hread ih =>
    rw [Nat.zero_add] at hread
    exact ih.read h hread

/-- A text that is read to its end is gaps and statements in turn. -/
theorem laid_of_ok (h : statementsFrom 0 .between ps = .ok ss) : Laid 0 ps ss := by
  obtain ⟨us, st, held, hreach, hfinish, rfl⟩ := reaches_of_ok h
  have hst : ∀ l start, st ≠ .labelled l start := by
    rintro l start rfl
    cases hfinish
  obtain ⟨held', hheld', hlaid⟩ := hreach.stage.closed hst (0 + extent ps)
  rw [hfinish] at hheld'
  cases hheld'
  exact hlaid

end BlockMachine.Source
