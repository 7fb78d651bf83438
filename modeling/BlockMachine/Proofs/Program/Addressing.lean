import Mathlib.Data.List.Basic
import BlockMachine.Program

namespace BlockMachine.Program

/-- Blocks of one position stay in the order given. -/
theorem filter_position_ofList (blocks : List Instruction) (k : Nat) :
    (ofList blocks).instructions.filter (·.position = k) = blocks.filter (·.position = k) := by
  have hsublist : (blocks.filter (·.position = k)).Sublist (ofList blocks).instructions := by
    refine List.sublist_mergeSort ?_ ?_ ?_ List.filter_sublist
    · simp only [decide_eq_true_eq]; omega
    · simp only [Bool.or_eq_true, decide_eq_true_eq]; omega
    · refine List.pairwise_of_forall_mem_list fun i hi j hj => ?_
      have hi' := List.mem_filter.mp hi
      have hj' := List.mem_filter.mp hj
      simp only [decide_eq_true_eq] at hi' hj' ⊢
      omega
  have hfilter := hsublist.filter (·.position = k)
  rw [List.filter_filter] at hfilter
  simp only [Bool.and_self] at hfilter
  have hlength : (blocks.filter (·.position = k)).length =
      ((ofList blocks).instructions.filter (·.position = k)).length :=
    ((ofList_perm blocks).symm.filter _).length_eq
  exact (hfilter.eq_of_length hlength).symm

/-- Blocks in order of position are determined by those of each position. -/
theorem eq_of_filter_position {is js : List Instruction}
    (his : is.Pairwise (·.position ≤ ·.position)) (hjs : js.Pairwise (·.position ≤ ·.position))
    (h : ∀ k, is.filter (·.position = k) = js.filter (·.position = k)) : is = js := by
  induction is generalizing js with
  | nil =>
    cases js with
    | nil => rfl
    | cons j js => simpa using h j.position
  | cons i is ih =>
    cases js with
    | nil => simpa using h i.position
    | cons j js =>
      obtain ⟨hi, his'⟩ := List.pairwise_cons.mp his
      obtain ⟨hj, hjs'⟩ := List.pairwise_cons.mp hjs
      -- each list holds the first block of the other, which comes no earlier than its own
      have hij : i.position ≤ j.position := by
        have hmem : j ∈ (i :: is).filter (·.position = j.position) := by
          rw [h]
          simp
        rcases List.mem_cons.mp (List.mem_filter.mp hmem).1 with rfl | hmem
        · exact Nat.le_refl _
        · exact hi j hmem
      have hji : j.position ≤ i.position := by
        have hmem : i ∈ (j :: js).filter (·.position = i.position) := by
          rw [← h]
          simp
        rcases List.mem_cons.mp (List.mem_filter.mp hmem).1 with rfl | hmem
        · exact Nat.le_refl _
        · exact hj i hmem
      have hposition : j.position = i.position := Nat.le_antisymm hji hij
      have hfirst := h i.position
      simp only [List.filter_cons, hposition, decide_true, if_true, List.cons.injEq] at hfirst
      obtain ⟨rfl, -⟩ := hfirst
      refine congrArg (i :: ·) (ih his' hjs' fun k => ?_)
      have hk := h k
      simp only [List.filter_cons] at hk
      split at hk
      · exact (List.cons.inj hk).2
      · exact hk

/-- What is installed is the one list in order of position in which the blocks of each position are
those given, in the order given. -/
theorem ofList_instructions_eq {blocks is : List Instruction}
    (his : is.Pairwise (·.position ≤ ·.position))
    (h : ∀ k, is.filter (·.position = k) = blocks.filter (·.position = k)) :
    (ofList blocks).instructions = is := by
  apply eq_of_filter_position (ofList_ascending blocks) his
  intro k
  rw [filter_position_ofList, h]

theorem ofList_eq_self {blocks : List Instruction}
    (h : blocks.Pairwise (·.position ≤ ·.position)) :
    ofList blocks = { instructions := blocks } :=
  ext_instructions (ofList_instructions h)

/-- A list can be checked to be what is installed, without any sorting: its blocks are in order of
position, and those of each position that occurs are those given. -/
theorem ofList_eq_mk {blocks is : List Instruction} (his : is.Pairwise (·.position ≤ ·.position))
    (h : ∀ k ∈ (blocks ++ is).map (·.position),
      is.filter (·.position = k) = blocks.filter (·.position = k)) :
    ofList blocks = { instructions := is } := by
  apply ext_instructions
  apply ofList_instructions_eq his
  intro k
  by_cases hk : k ∈ (blocks ++ is).map (·.position)
  · exact h k hk
  · have hnone (js : List Instruction) (hjs : js ⊆ blocks ++ is) :
        js.filter (·.position = k) = [] := by
      apply List.filter_eq_nil_iff.mpr
      intro j hj hjk
      exact hk (List.mem_map.mpr ⟨j, hjs hj, of_decide_eq_true hjk⟩)
    rw [hnone is (List.subset_append_right _ _), hnone blocks (List.subset_append_left _ _)]

/-- Blocks that are numbered from 0 on are installed as they stand. -/
theorem ofList_of_position {blocks : List Instruction}
    (h : ∀ (a : Nat) (i : Instruction), blocks[a]? = some i → i.position = a) :
    (ofList blocks).instructions = blocks := by
  apply ofList_instructions
  rw [List.pairwise_iff_getElem]
  intro a b ha hb hab
  have hpa : blocks[a].position = a := h a _ (List.getElem?_eq_getElem ha)
  have hpb : blocks[b].position = b := h b _ (List.getElem?_eq_getElem hb)
  omega

/-- Changing the blocks before they are installed is the same as doing so after, if the change leaves
their order alone. -/
theorem ofList_map {blocks : List Instruction} {g : Instruction → Instruction}
    (h : ∀ i ∈ blocks, ∀ j ∈ blocks,
      i.position ≤ j.position ↔ (g i).position ≤ (g j).position) :
    (ofList (blocks.map g)).instructions = (ofList blocks).instructions.map g := by
  have hle : ∀ i ∈ blocks, ∀ j ∈ blocks, decide (i.position ≤ j.position) =
      decide ((g i).position ≤ (g j).position) := by
    intro i hi j hj
    exact decide_eq_decide.mpr (h i hi j hj)
  exact (List.map_mergeSort hle).symm

/-- Leaving blocks out before they are installed is the same as doing so after. -/
theorem ofList_filter (blocks : List Instruction) (keep : Instruction → Bool) :
    (ofList (blocks.filter keep)).instructions = (ofList blocks).instructions.filter keep := by
  apply ofList_instructions_eq ((ofList_ascending blocks).filter keep)
  intro k
  calc ((ofList blocks).instructions.filter keep).filter (·.position = k)
    _ = ((ofList blocks).instructions.filter (·.position = k)).filter keep := List.filter_comm ..
    _ = (blocks.filter (·.position = k)).filter keep := by rw [filter_position_ofList]
    _ = (blocks.filter keep).filter (·.position = k) := List.filter_comm ..

/-- Blocks that come no earlier than those before them are installed behind them. -/
theorem ofList_append {p q : List Instruction}
    (h : ∀ i ∈ p, ∀ j ∈ q, i.position ≤ j.position) :
    (ofList (p ++ q)).instructions = (ofList p).instructions ++ (ofList q).instructions := by
  apply ofList_instructions_eq
  · refine List.pairwise_append.mpr ⟨ofList_ascending p, ofList_ascending q, ?_⟩
    intro i hi j hj
    exact h i ((ofList_perm p).mem_iff.mp hi) j ((ofList_perm q).mem_iff.mp hj)
  · intro k
    rw [List.filter_append, List.filter_append, filter_position_ofList, filter_position_ofList]

theorem lookup_enterAnchor (table : List (Label × Nat)) (l l' : Label) (a : Nat) :
    (enterAnchor table l a).lookup l' =
      (table.lookup l').or (if l' = l then some a else none) := by
  rw [enterAnchor]
  by_cases hl : l' = l
  · -- the label has an entry already or gets its only one
    subst hl
    cases h : table.lookup l' with
    | none => simp
    | some b => simp [h]
  · rw [if_neg hl, Option.or_none]
    split
    · rfl
    · rw [List.lookup_cons, beq_false_of_ne hl]

/-- What the table knows of a label stays, and what it does not know is the first of the blocks still
to come that carries the label. -/
theorem lookup_anchorsFrom (l : Label) (is : List Instruction) (a : Nat)
    (table : List (Label × Nat)) : (anchorsFrom a table is).lookup l =
      (table.lookup l).or ((is.findIdx? (·.anchor? = some l)).map (· + a)) := by
  induction is generalizing a table with
  | nil => simp [anchorsFrom]
  | cons i is ih =>
    have hrest : ((is.findIdx? (·.anchor? = some l)).map (· + 1)).map (· + a) =
        (is.findIdx? (·.anchor? = some l)).map (· + (a + 1)) := by
      rw [Option.map_map]
      refine congrArg (Option.map · _) (funext fun b => ?_)
      simp only [Function.comp]
      omega
    rw [anchorsFrom, List.findIdx?_cons]
    split
    · next hnone => simp [hnone, ih, hrest]
    · next l' hl' =>
      rw [ih, lookup_enterAnchor, Option.or_assoc]
      by_cases h : l = l'
      · simp [hl', h]
      · simp [hl', h, Ne.symm h, hrest]

/-- A label leads to the first block that carries it. -/
theorem resolve_eq_findIdx? (p : Program) (l : Label) :
    p.resolve l = p.instructions.findIdx? (·.anchor? = some l) := by
  rw [resolve, p.anchors_eq, lookup_anchorsFrom]
  simp

theorem findIdx?_congr {is : List Instruction} {test test' : Instruction → Bool}
    (h : ∀ i ∈ is, test i = test' i) : is.findIdx? test = is.findIdx? test' := by
  induction is with
  | nil => rfl
  | cons i is ih =>
    obtain ⟨hi, his⟩ := List.forall_mem_cons.mp h
    rw [List.findIdx?_cons, List.findIdx?_cons, hi, ih his]

/-- The empty label is never found. -/
theorem resolve_empty (p : Program) : p.resolve "" = none := by
  rw [resolve_eq_findIdx?, List.findIdx?_eq_none_iff]
  intro i _
  simp [Instruction.anchor?, Option.filter_eq_some_iff]

/-- A label leads where a search through the blocks ends, from the first of them to the first that
carries the label. -/
theorem resolve_of_ne_empty (p : Program) {l : Label} (hl : l ≠ "") :
    p.resolve l = p.instructions.findIdx? (·.label = some l) := by
  rw [resolve_eq_findIdx?]
  apply findIdx?_congr
  intro i _
  apply decide_eq_decide.mpr
  rw [Instruction.anchor?, Option.filter_eq_some_iff]
  simp [hl]

/-- What is installed has the blocks given, each as often as it was, in order of position, and those of
one position in the order in which they were given. In it every label leads where a search from the
start finds it first; the empty one leads nowhere, even if there are blocks that carry it. -/
theorem installed_in_order_and_found_by_search (blocks : List Instruction) :
    let p := ofList blocks
    p.instructions.Perm blocks ∧
    p.instructions.Pairwise (·.position ≤ ·.position) ∧
    (∀ k, p.instructions.filter (·.position = k) = blocks.filter (·.position = k)) ∧
    ∀ l, p.resolve l =
      if l = "" then none else p.instructions.findIdx? (·.label = some l) := by
  intro p
  refine ⟨ofList_perm blocks, ofList_ascending blocks, filter_position_ofList blocks, ?_⟩
  intro l
  by_cases hl : l = ""
  · rw [if_pos hl, hl]
    exact resolve_empty p
  · rw [if_neg hl]
    exact p.resolve_of_ne_empty hl

theorem resolve_eq_none_iff {p : Program} {l : Label} :
    p.resolve l = none ↔ ∀ i ∈ p.instructions, i.anchor? ≠ some l := by
  rw [resolve_eq_findIdx?, List.findIdx?_eq_none_iff]
  simp

theorem resolve_ofList_eq_none_iff {blocks : List Instruction} {l : Label} :
    (ofList blocks).resolve l = none ↔ ∀ i ∈ blocks, i.anchor? ≠ some l := by
  simp only [resolve_eq_none_iff, (ofList_perm blocks).mem_iff]

theorem get?_ofList_append {p q : List Instruction}
    (h : ∀ i ∈ p, ∀ j ∈ q, i.position ≤ j.position) (a : Nat) :
    (ofList (p ++ q)).get? a =
      if a < p.length then (ofList p).get? a else (ofList q).get? (a - p.length) := by
  have hlength : (ofList p).instructions.length = p.length := (ofList_perm p).length_eq
  simp only [get?]
  rw [ofList_append h, List.getElem?_append, hlength]

/-- In what is installed behind other blocks, a label leads where it leads among those, or else to
where it leads in the rest. -/
theorem resolve_ofList_append {p q : List Instruction}
    (h : ∀ i ∈ p, ∀ j ∈ q, i.position ≤ j.position) (l : Label) :
    (ofList (p ++ q)).resolve l =
      ((ofList p).resolve l).or (((ofList q).resolve l).map (p.length + ·)) := by
  have hlength : (ofList p).instructions.length = p.length := (ofList_perm p).length_eq
  simp only [resolve_eq_findIdx?]
  rw [ofList_append h, List.findIdx?_append, hlength]
  simp only [Nat.add_comm]

def keptBefore (keep : Instruction → Bool) (is : List Instruction) (a : Nat) : Nat :=
  (is.take a).countP keep

section Kept

variable {keep : Instruction → Bool} {is : List Instruction} {a : Nat}

theorem keptBefore_succ {i : Instruction} (h : is[a]? = some i) :
    keptBefore keep is (a + 1) = keptBefore keep is a + if keep i then 1 else 0 := by
  rw [keptBefore, List.take_add_one, h, List.countP_append, Option.toList_some,
    List.countP_singleton]
  rfl

theorem keptBefore_of_length_le (h : is.length ≤ a) :
    keptBefore keep is a = (is.filter keep).length := by
  rw [keptBefore, List.take_of_length_le h, List.countP_eq_length_filter]

theorem getElem?_keptBefore {i : Instruction} (h : is[a]? = some i) (hi : keep i = true) :
    (is.filter keep)[keptBefore keep is a]? = some i := by
  induction is generalizing a with
  | nil => cases h
  | cons j is ih =>
    cases a with
    | zero =>
      obtain rfl : j = i := Option.some.inj h
      rw [List.filter_cons_of_pos hi]
      rfl
    | succ a =>
      have hrest := ih (a := a) h
      by_cases hj : keep j = true
      · rw [List.filter_cons_of_pos hj, keptBefore, List.take_succ_cons,
          List.countP_cons_of_pos hj, List.getElem?_cons_succ]
        exact hrest
      · rw [List.filter_cons_of_neg hj, keptBefore, List.take_succ_cons,
          List.countP_cons_of_neg hj]
        exact hrest

theorem findIdx?_filter {test : Instruction → Bool}
    (h : ∀ i ∈ is, test i = true → keep i = true) :
    (is.filter keep).findIdx? test = (is.findIdx? test).map (keptBefore keep is) := by
  induction is with
  | nil => rfl
  | cons j is ih =>
    obtain ⟨hj, his⟩ := List.forall_mem_cons.mp h
    rw [List.findIdx?_cons]
    by_cases htest : test j = true
    · rw [if_pos htest, List.filter_cons_of_pos (hj htest), List.findIdx?_cons, if_pos htest]
      rfl
    · rw [if_neg htest, Option.map_map]
      by_cases hkeep : keep j = true
      · rw [List.filter_cons_of_pos hkeep, List.findIdx?_cons, if_neg htest, ih his,
          Option.map_map]
        refine congrArg (Option.map · _) (funext fun b => ?_)
        exact (List.countP_cons_of_pos hkeep).symm
      · rw [List.filter_cons_of_neg hkeep, ih his]
        refine congrArg (Option.map · _) (funext fun b => ?_)
        exact (List.countP_cons_of_neg hkeep).symm

end Kept

/-- If no block that is left out carries a label, every label leads to the block it led to. -/
theorem resolve_of_filter {p q : Program} {keep : Instruction → Bool}
    (hq : q.instructions = p.instructions.filter keep)
    (h : ∀ i ∈ p.instructions, i.anchor? ≠ none → keep i = true) (l : Label) :
    q.resolve l = (p.resolve l).map (keptBefore keep p.instructions) := by
  rw [resolve_eq_findIdx?, resolve_eq_findIdx?, hq]
  refine findIdx?_filter fun i hi hl => h i hi ?_
  simp [of_decide_eq_true hl]

end BlockMachine.Program
