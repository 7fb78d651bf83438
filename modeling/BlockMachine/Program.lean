import BlockMachine.Instruction

namespace BlockMachine

def enterAnchor (table : List (Label × Nat)) (l : Label) (address : Nat) : List (Label × Nat) :=
  if (table.lookup l).isSome then table else (l, address) :: table

/-- Goes through the blocks once, of which the first one is at `address`, and enters their labels
into the table. A label that several blocks carry stands for the first of them. -/
def anchorsFrom (address : Nat) (table : List (Label × Nat)) :
    List Instruction → List (Label × Nat)
  | [] => table
  | i :: rest =>
    match i.anchor? with
    | none => anchorsFrom (address + 1) table rest
    | some l => anchorsFrom (address + 1) (enterAnchor table l address) rest

structure Program where
  instructions : List Instruction := []
  anchors : List (Label × Nat) := anchorsFrom 0 [] instructions
  anchors_eq : anchors = anchorsFrom 0 [] instructions := by rfl
  deriving DecidableEq

namespace Program

def empty : Program := {}

def ofList (blocks : List Instruction) : Program where
  instructions := blocks.mergeSort (·.position ≤ ·.position)

/-- No block is lost when a program is installed, and none is added. -/
theorem ofList_perm (blocks : List Instruction) :
    (ofList blocks).instructions.Perm blocks := List.mergeSort_perm blocks _

theorem ofList_ascending (blocks : List Instruction) :
    (ofList blocks).instructions.Pairwise (·.position ≤ ·.position) := by
  have h := @List.pairwise_mergeSort Instruction (fun a b => a.position ≤ b.position)
    (by simp only [decide_eq_true_eq]; omega)
    (by simp only [Bool.or_eq_true, decide_eq_true_eq]; omega) blocks
  simp only [decide_eq_true_eq] at h
  exact h

/-- Blocks that stand in order are installed as they stand. -/
theorem ofList_instructions {blocks : List Instruction}
    (h : blocks.Pairwise (·.position ≤ ·.position)) : (ofList blocks).instructions = blocks :=
  List.mergeSort_of_pairwise (by simpa only [decide_eq_true_eq] using h)

def size (p : Program) : Nat := p.instructions.length

def isEmpty (p : Program) : Bool := p.instructions.isEmpty

def get? (p : Program) (address : Nat) : Option Instruction := p.instructions[address]?

def resolve (p : Program) (l : Label) : Option Nat := p.anchors.lookup l

/-- Two programs with the same blocks are equal: the table is determined by them. -/
theorem ext_instructions {p q : Program} (h : p.instructions = q.instructions) : p = q := by
  obtain ⟨ps, pa, hp⟩ := p
  obtain ⟨qs, qa, hq⟩ := q
  subst hp hq
  cases h
  rfl

end Program

end BlockMachine
