import BlockMachine.Op

namespace BlockMachine

/-- Positions order the blocks of a program; they need not be dense or distinct. -/
structure Instruction where
  position : Nat
  op : Op
  label : Option Label := none
  deriving DecidableEq, Repr

namespace Instruction

def anchor? (i : Instruction) : Option Label := i.label.filter (· ≠ "")

def text (i : Instruction) : String :=
  match i.label with
  | none => i.op.text
  | some l => l ++ ": " ++ i.op.text

end Instruction

end BlockMachine
