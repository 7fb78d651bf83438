import BlockMachine.Proofs.Machine.Placement

namespace BlockMachine

def Instruction.rename (f : Label → Label) (i : Instruction) : Instruction :=
  { i with label := i.label.map f, op := i.op.rename f }

def Instruction.labels (i : Instruction) : List Label := i.label.toList ++ i.op.target?.toList

def labelsIn (blocks : List Instruction) : List Label := blocks.flatMap Instruction.labels

/-- The names are new names for the labels that occur in the blocks. Nothing is asked of the names of
others. -/
structure Renames (f : Label → Label) (blocks : List Instruction) : Prop where
  injective : ∀ l ∈ labelsIn blocks, ∀ l' ∈ labelsIn blocks, f l = f l' → l = l'
  empty : ∀ l ∈ labelsIn blocks, f l = "" ↔ l = ""

variable {f : Label → Label} {blocks : List Instruction} {i : Instruction} {l : Label}

theorem mem_labelsIn_of_label (hi : i ∈ blocks) (hl : i.label = some l) : l ∈ labelsIn blocks := by
  apply List.mem_flatMap.mpr
  refine ⟨i, hi, List.mem_append_left _ ?_⟩
  rw [hl]
  exact List.mem_singleton_self l

theorem mem_labelsIn_of_target (hi : i ∈ blocks) (hl : i.op.target? = some l) :
    l ∈ labelsIn blocks := by
  apply List.mem_flatMap.mpr
  refine ⟨i, hi, List.mem_append_right _ ?_⟩
  rw [hl]
  exact List.mem_singleton_self l

theorem Renames.anchor?_rename_iff (h : Renames f blocks) (hi : i ∈ blocks)
    (hl : l ∈ labelsIn blocks) : (i.rename f).anchor? = some (f l) ↔ i.anchor? = some l := by
  simp only [Instruction.anchor?, Option.filter_eq_some_iff, decide_eq_true_eq]
  constructor
  · rintro ⟨hname, hne⟩
    obtain ⟨l', hl', heq⟩ := Option.map_eq_some_iff.mp hname
    obtain rfl : l' = l := h.injective l' (mem_labelsIn_of_label hi hl') l hl heq
    exact ⟨hl', mt (h.empty l' hl).mpr hne⟩
  · rintro ⟨hlabel, hne⟩
    exact ⟨congrArg (Option.map f) hlabel, mt (h.empty l hl).mp hne⟩

namespace Program

theorem ofList_map_rename (f : Label → Label) (blocks : List Instruction) :
    (ofList (blocks.map (·.rename f))).instructions =
      (ofList blocks).instructions.map (·.rename f) :=
  ofList_map fun _ _ _ _ => Iff.rfl

/-- The new name is found where the label was. -/
theorem resolve_rename (h : Renames f blocks) (hl : l ∈ labelsIn blocks) :
    (ofList (blocks.map (·.rename f))).resolve (f l) = (ofList blocks).resolve l := by
  rw [resolve_eq_findIdx?, resolve_eq_findIdx?, ofList_map_rename, List.findIdx?_map]
  apply findIdx?_congr
  intro i hi
  have hmem : i ∈ blocks := (ofList_perm blocks).mem_iff.mp hi
  exact decide_eq_decide.mpr (h.anchor?_rename_iff hmem hl)

/-- Under their new names the blocks do what they did, since every jump leads where it led. -/
theorem actsLike_rename (h : Renames f blocks) :
    (ofList blocks).ActsLike (ofList (blocks.map (·.rename f))) := by
  have hget (a : Nat) : (ofList (blocks.map (·.rename f))).get? a =
      ((ofList blocks).get? a).map (·.rename f) := by
    rw [get?, ofList_map_rename, List.getElem?_map]
    rfl
  constructor
  · intro a hnone
    rw [hget, hnone]
    rfl
  · intro a i hi
    refine ⟨i.rename f, ?_, fun s => State.perform_rename ?_ s⟩
    · rw [hget, hi]
      rfl
    · intro l hl
      have hmem : i ∈ blocks := (ofList_perm blocks).mem_iff.mp (List.mem_of_getElem? hi)
      exact resolve_rename h (mem_labelsIn_of_target hmem hl)

end Program

namespace Machine

/-- Nothing that is asked of a machine shows what its labels are called. With other names for them,
in the blocks that carry them as in the jumps, it gives the same answers and is led to the same
states. -/
theorem renamed_labels_go_unnoticed (h : Renames f blocks) (m : Machine) {calls : List Call}
    (hcalls : ∀ c ∈ calls, c.keepsProgram = true) :
    let a := m.install blocks
    let b := m.install (blocks.map (·.rename f))
    b.replies calls = a.replies calls ∧ (b.afterCalls calls).state = (a.afterCalls calls).state := by
  intro a b
  have hacts : a.program.ActsLike b.program := Program.actsLike_rename h
  obtain ⟨hreplies, hafter⟩ := calls_withProgram (m := a) hcalls hacts
  have hstate := congrArg Machine.state hafter
  exact ⟨hreplies, hstate⟩

/-- Of two blocks with one label the first is found; one jump leads nowhere, and another one has the
empty label, which a block carries. Labels that do not occur all get one name. -/
theorem swapped_labels_go_unnoticed :
    let blocks : List Instruction := [⟨5, .jump "b", none⟩, ⟨0, .inbox, some "a"⟩,
      ⟨1, .jumpIfZero "", some "b"⟩, ⟨2, .jumpIfNegative "a", some ""⟩,
      ⟨3, .jumpIfZero "c", some "a"⟩, ⟨4, .outbox, some "b"⟩]
    let f : Label → Label := fun l =>
      if l = "a" then "b" else if l = "b" then "a" else if l = "c" then "b2" else ""
    let m := after 1 (fresh (.ofList blocks) 9 [5, 6])
    let calls : List Call :=
      [.step, .run, .reset { initialInbox := [-1, 0, 2] }, .limit 12, .run, .limit 40, .run]
    Renames f blocks ∧
      (m.install (blocks.map (·.rename f))).replies calls = (m.install blocks).replies calls ∧
      ((m.install (blocks.map (·.rename f))).afterCalls calls).state =
        ((m.install blocks).afterCalls calls).state := by
  intro blocks f m calls
  have h : Renames f blocks := ⟨by decide, by decide⟩
  have hkeeps : ∀ c ∈ calls, c.keepsProgram = true := by decide
  exact ⟨h, renamed_labels_go_unnoticed h m hkeeps⟩

end Machine

end BlockMachine
