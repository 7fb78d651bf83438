namespace BlockMachine

/-- Written cells with their values, ascending by cell, so that two memories with the same
written cells and the same values are equal. -/
structure Memory where
  entries : List (Nat × Int) := []
  ascending : entries.Pairwise (·.1 < ·.1) := by exact List.Pairwise.nil
  deriving DecidableEq

namespace Memory

def empty : Memory := {}

def put (cell : Nat) (value : Int) : List (Nat × Int) → List (Nat × Int)
  | [] => [(cell, value)]
  | e :: rest =>
    if cell < e.1 then (cell, value) :: e :: rest
    else if cell = e.1 then (cell, value) :: rest
    else e :: put cell value rest

theorem mem_put {cell : Nat} {value : Int} {es : List (Nat × Int)} {e : Nat × Int}
    (h : e ∈ put cell value es) : e = (cell, value) ∨ e ∈ es := by
  induction es with
  | nil => exact .inl (by simpa [put] using h)
  | cons d es ih =>
    rw [put] at h
    split at h
    · simpa using h
    · split at h
      · rcases List.mem_cons.mp h with h | h
        · exact .inl h
        · exact .inr (List.mem_cons_of_mem d h)
      · rcases List.mem_cons.mp h with h | h
        · exact .inr (h ▸ List.mem_cons_self)
        · exact (ih h).imp id (List.mem_cons_of_mem d)

/-- A cell is entered where it belongs, so that there is one list for each content of a memory. -/
theorem put_ascending (cell : Nat) (value : Int) {es : List (Nat × Int)}
    (h : es.Pairwise (·.1 < ·.1)) : (put cell value es).Pairwise (·.1 < ·.1) := by
  induction es with
  | nil => simp [put]
  | cons e es ih =>
    obtain ⟨he, hes⟩ := List.pairwise_cons.mp h
    rw [put]
    split
    · -- the cell comes before all others
      next hlt =>
      refine List.pairwise_cons.mpr ⟨fun d hd => ?_, h⟩
      rcases List.mem_cons.mp hd with rfl | hd
      · exact hlt
      · exact Nat.lt_trans hlt (he d hd)
    · split
      · next heq => exact List.pairwise_cons.mpr ⟨fun d hd => heq ▸ he d hd, hes⟩
      · refine List.pairwise_cons.mpr ⟨fun d hd => ?_, ih hes⟩
        rcases mem_put hd with rfl | hd
        · simp only; omega
        · exact he d hd

def set (m : Memory) (cell : Nat) (value : Int) : Memory :=
  ⟨put cell value m.entries, put_ascending cell value m.ascending⟩

def written? (m : Memory) (cell : Nat) : Option Int := m.entries.lookup cell

def get (m : Memory) (cell : Nat) : Int := (m.written? cell).getD 0

def used (m : Memory) : Nat := m.entries.length

def cells (m : Memory) (size : Nat) : List Int := (List.range size).map m.get

theorem lookup_cons_ite (c : Nat) (e : Nat × Int) (es : List (Nat × Int)) :
    (e :: es).lookup c = if c = e.1 then some e.2 else es.lookup c := by
  rw [List.lookup_cons]
  by_cases h : c = e.1
  · simp [h]
  · rw [beq_false_of_ne h, if_neg h]

theorem lookup_put (cell : Nat) (value : Int) (es : List (Nat × Int)) (c : Nat) :
    (put cell value es).lookup c = if c = cell then some value else es.lookup c := by
  induction es with
  | nil => simp only [put, lookup_cons_ite]
  | cons e es ih =>
    rw [put]
    split
    · rw [lookup_cons_ite]
    · split
      · next heq =>
        simp only [lookup_cons_ite, heq]
        split <;> rfl
      · next hlt hne =>
        simp only [lookup_cons_ite, ih]
        split
        · rw [if_neg (by omega)]
        · rfl

theorem written?_set (m : Memory) (cell : Nat) (value : Int) (c : Nat) :
    (m.set cell value).written? c = if c = cell then some value else m.written? c :=
  lookup_put cell value m.entries c

/-- A cell holds what was written to it last, and no other cell is touched. -/
theorem get_set (m : Memory) (cell : Nat) (value : Int) (c : Nat) :
    (m.set cell value).get c = if c = cell then value else m.get c := by
  unfold get
  rw [written?_set]
  split <;> rfl

/-- A cell that was not written before is one more entry. -/
theorem length_put (cell : Nat) (value : Int) {es : List (Nat × Int)}
    (h : es.Pairwise (·.1 < ·.1)) : (put cell value es).length =
      es.length + if (es.lookup cell).isSome then 0 else 1 := by
  induction es with
  | nil => rfl
  | cons e es ih =>
    obtain ⟨he, hes⟩ := List.pairwise_cons.mp h
    rw [put]
    split
    · next hlt =>
      have hnone : (e :: es).lookup cell = none := by
        apply List.lookup_eq_none_iff.mpr
        intro d hd
        have hlt' : cell < d.1 := by
          rcases List.mem_cons.mp hd with rfl | hd
          · exact hlt
          · exact Nat.lt_trans hlt (he d hd)
        exact bne_iff_ne.mpr (Nat.ne_of_lt hlt')
      rw [hnone]
      rfl
    · split
      · next heq =>
        rw [lookup_cons_ite, if_pos heq]
        rfl
      · next hne =>
        rw [lookup_cons_ite, if_neg hne, List.length_cons, List.length_cons, ih hes]
        omega

/-- A cell that is written for the first time counts, and one that is written again does not. -/
theorem used_set (m : Memory) (cell : Nat) (value : Int) :
    (m.set cell value).used = m.used + if (m.written? cell).isSome then 0 else 1 :=
  length_put cell value m.ascending

end Memory

end BlockMachine
