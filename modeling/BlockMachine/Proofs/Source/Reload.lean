import BlockMachine.Proofs.Machine.Placement
import BlockMachine.Proofs.Source.ReadBack

namespace BlockMachine

namespace Source

/-- Only labels and operations are written. -/
theorem listing_congr {is js : List Instruction}
    (h : js.map Instruction.body = is.map Instruction.body) : listing js = listing is := by
  have hwidth (blocks : List Instruction) : labelWidth blocks =
      ((blocks.map Instruction.body).map fun b => (labelText b.1).utf8ByteSize).foldl max 0 := by
    rw [List.map_map]
    rfl
  have hlines (w : Nat) (blocks : List Instruction) : blocks.map (line w) =
      (blocks.map Instruction.body).map fun b => Text.padRight w (labelText b.1) ++ b.2.text := by
    rw [List.map_map]
    rfl
  rw [listing, listing, hlines, hlines, hwidth, hwidth, h]

def renumber (blocks : List Instruction) : List Instruction :=
  blocks.mapIdx fun i b => { b with position := i }

variable {blocks : List Instruction}

theorem map_body_renumber (blocks : List Instruction) :
    (renumber blocks).map Instruction.body = blocks.map Instruction.body := by
  apply List.ext_getElem?
  intro i
  rw [List.getElem?_map, List.getElem?_map, renumber, List.getElem?_mapIdx, Option.map_map]
  rfl

theorem exists_of_getElem?_renumber {i : Nat} {b : Instruction}
    (h : (renumber blocks)[i]? = some b) : ∃ c ∈ blocks, b = { c with position := i } := by
  rw [renumber, List.getElem?_mapIdx] at h
  obtain ⟨c, hc, hb⟩ := Option.map_eq_some_iff.mp h
  exact ⟨c, List.mem_of_getElem? hc, hb.symm⟩

theorem wellFormed_renumber (h : ∀ b ∈ blocks, b.IsWritable) : WellFormed (renumber blocks) := by
  constructor
  · intro i b hb
    obtain ⟨c, -, rfl⟩ := exists_of_getElem?_renumber hb
    rfl
  · intro b hb
    obtain ⟨i, hi⟩ := List.mem_iff_getElem?.mp hb
    obtain ⟨c, hc, rfl⟩ := exists_of_getElem?_renumber hi
    obtain ⟨hlabel, htarget, hcell, hplaceable⟩ := h c hc
    exact ⟨hlabel, htarget, hcell, hplaceable⟩

/-- What is read from a listing is installed as it stands. -/
theorem ofList_of_wellFormed (h : WellFormed blocks) :
    (Program.ofList blocks).instructions = blocks := Program.ofList_of_position h.position

theorem compile_listing_of_isWritable (h : ∀ b ∈ blocks, b.IsWritable) :
    compile (listing blocks) = .ok (renumber blocks) :=
  calc compile (listing blocks)
    _ = compile (listing (renumber blocks)) := by rw [listing_congr (map_body_renumber blocks)]
    _ = .ok (renumber blocks) := compile_listing (wellFormed_renumber h)

end Source

namespace Machine

open Source

/-- The program of a machine, saved as text and loaded again, takes the place of the one that was
installed, whatever the positions of its blocks were and whatever the machine has done before: the
text is read, and nothing that is asked of the machine later shows the difference. -/
theorem reloaded_program_goes_unnoticed {blocks : List Instruction}
    (h : ∀ b ∈ blocks, b.IsWritable) (m : Machine) :
    ∃ again, compile (listing (m.install blocks).program.instructions) = .ok again ∧
      Indistinguishable (m.install blocks) (m.install again) := by
  have hsorted : ∀ b ∈ (Program.ofList blocks).instructions, b.IsWritable := by
    intro b hb
    exact h b ((Program.ofList_perm blocks).mem_iff.mp hb)
  refine ⟨_, compile_listing_of_isWritable hsorted, ?_⟩
  have hsame : (m.install blocks).program.SameBodies
      (.ofList (renumber (Program.ofList blocks).instructions)) := by
    rw [Program.SameBodies, ofList_of_wellFormed (wellFormed_renumber hsorted)]
    exact map_body_renumber _
  exact indistinguishable_withProgram hsame

/-- Two blocks at one position, of which the second takes its operand from nowhere and stands before
a line with a label that another block has, too. -/
theorem tied_blocks_are_reloaded :
    let blocks : List Instruction := [⟨9, .jump "é", none⟩, ⟨4, .inbox, some "é"⟩,
      ⟨4, .unconfigured .add, none⟩, ⟨7, .outbox, some "é"⟩]
    let m := after 2 (fresh .empty 8 [5, 6])
    let calls : List Call := [.reset { initialInbox := [1, 2] }, .run, .limit 20, .step, .run]
    ∃ again, compile (listing (m.install blocks).program.instructions) = .ok again ∧
      (m.install again).replies calls = (m.install blocks).replies calls ∧
      ((m.install again).afterCalls calls).state = ((m.install blocks).afterCalls calls).state := by
  intro blocks m calls
  have hname : IsName ['é'] :=
    ⟨⟨by decide +kernel, by simp⟩, spelled?_eq_none_iff.mp (by decide)⟩
  have hwritable : ∀ b ∈ blocks, b.IsWritable := by
    intro b hb
    simp only [blocks, List.mem_cons, List.not_mem_nil, or_false] at hb
    rcases hb with rfl | rfl | rfl | rfl <;> constructor <;> simp [Op.target?, Op.cell?, hname]
  have hkeeps : ∀ c ∈ calls, c.keepsProgram = true := by decide
  obtain ⟨again, hagain, hsame⟩ := reloaded_program_goes_unnoticed hwritable m
  obtain ⟨hreplies, hstate, -⟩ := hsame calls hkeeps
  exact ⟨again, hagain, hreplies, hstate⟩

end Machine

end BlockMachine
