import BlockMachine.Proofs.Machine.Placement

namespace BlockMachine

def Instruction.moved (f : Nat → Nat) (i : Instruction) : Instruction :=
  { i with position := f i.position }

/-- The second list has the blocks of the first, those at the same position one after the other as
they were, and each of them moved by a function that keeps the order of the positions. -/
structure Rearranges (f : Nat → Nat) (p q : List Instruction) : Prop where
  increasing : ∀ i ∈ p, ∀ j ∈ p, i.position < j.position → f i.position < f j.position
  reordered : ∃ r : List Instruction, r.Perm p ∧
    (∀ k, r.filter (·.position = k) = p.filter (·.position = k)) ∧
    q = r.map (·.moved f)

namespace Program

variable {f : Nat → Nat} {p q : List Instruction}

theorem ofList_map_moved
    (h : ∀ i ∈ p, ∀ j ∈ p, i.position < j.position → f i.position < f j.position) :
    (ofList (p.map (·.moved f))).instructions = (ofList p).instructions.map (·.moved f) := by
  apply ofList_map
  intro i hi j hj
  constructor
  · intro hij
    rcases Nat.lt_or_eq_of_le hij with hlt | heq
    · exact Nat.le_of_lt (h i hi j hj hlt)
    · exact Nat.le_of_eq (congrArg f heq)
  · intro hij
    apply Nat.le_of_not_lt
    intro hlt
    exact Nat.not_lt.mpr hij (h j hj i hi hlt)

theorem ofList_of_rearranges (h : Rearranges f p q) :
    (ofList q).instructions = (ofList p).instructions.map (·.moved f) := by
  obtain ⟨r, hperm, hties, rfl⟩ := h.reordered
  have hincreasing : ∀ i ∈ r, ∀ j ∈ r, i.position < j.position → f i.position < f j.position := by
    intro i hi j hj
    exact h.increasing i (hperm.mem_iff.mp hi) j (hperm.mem_iff.mp hj)
  have hsame : (ofList r).instructions = (ofList p).instructions := by
    apply ofList_instructions_eq (ofList_ascending p)
    intro k
    rw [filter_position_ofList, hties]
  rw [ofList_map_moved hincreasing, hsame]

theorem sameBodies_of_rearranges (h : Rearranges f p q) : (ofList p).SameBodies (ofList q) := by
  rw [SameBodies, ofList_of_rearranges h, List.map_map]
  rfl

end Program

namespace Machine

/-- Only the order of the positions matters. With blocks that are rearranged so that it stays, every
label is found at the same address, and nothing that is asked of the machine shows the
difference. -/
theorem rearranged_blocks_go_unnoticed {f : Nat → Nat} {p q : List Instruction}
    (h : Rearranges f p q) (m : Machine) :
    Indistinguishable (m.install p) (m.install q) ∧
      ∀ l, (m.install q).program.resolve l = (m.install p).program.resolve l := by
  have hsame : (m.install p).program.SameBodies (.ofList q) := Program.sameBodies_of_rearranges h
  constructor
  · exact indistinguishable_withProgram hsame
  · intro l
    exact hsame.resolve_eq l

/-- Four blocks, two of which are at one position and carry one label, are given from the last to
the first but for those two, and much farther apart. -/
theorem scattered_blocks_go_unnoticed :
    let p : List Instruction := [⟨0, .inbox, some "a"⟩, ⟨1, .copyTo 0, some "b"⟩,
      ⟨1, .outbox, some "b"⟩, ⟨2, .jump "a", none⟩]
    let q : List Instruction := [⟨202, .jump "a", none⟩, ⟨101, .copyTo 0, some "b"⟩,
      ⟨101, .outbox, some "b"⟩, ⟨0, .inbox, some "a"⟩]
    let m := after 2 (fresh .empty 9 [5, 6])
    let calls : List Call := [.reset { initialInbox := [1, 2] }, .step, .step, .limit 20, .run]
    (m.install q).replies calls = (m.install p).replies calls ∧
      ((m.install q).afterCalls calls).state = ((m.install p).afterCalls calls).state ∧
      (m.install q).program.resolve "b" = (m.install p).program.resolve "b" := by
  intro p q m calls
  have hq : Rearranges (101 * ·) p q := by
    refine ⟨fun i _ j _ hij => Nat.mul_lt_mul_of_pos_left hij (by decide), ?_⟩
    refine ⟨[⟨2, .jump "a", none⟩, ⟨1, .copyTo 0, some "b"⟩, ⟨1, .outbox, some "b"⟩,
      ⟨0, .inbox, some "a"⟩], by decide, ?_, rfl⟩
    intro k
    rcases k with _ | _ | _ | k <;> rfl
  have hkeeps : ∀ c ∈ calls, c.keepsProgram = true := by decide
  obtain ⟨hsame, hlabels⟩ := rearranged_blocks_go_unnoticed hq m
  obtain ⟨hreplies, hstate, -⟩ := hsame calls hkeeps
  exact ⟨hreplies, hstate, hlabels "b"⟩

end Machine

end BlockMachine
