import BlockMachine.Instruction
import BlockMachine.Source.Statement

namespace BlockMachine.Source

inductive BlockFault where
  | expectedCell (opcode : Opcode) (name : Label)
  | expectedLabel (opcode : Opcode) (cell : Nat)
  | unexpectedOperand (opcode : Opcode)
  deriving DecidableEq, Repr

def BlockFault.message : BlockFault → String
  | expectedCell o name => s!"`{o.name}` takes a memory cell, not the label `{name}`"
  | expectedLabel o cell => s!"`{o.name}` takes a label, not the cell {cell}"
  | unexpectedOperand o => s!"`{o.name}` doesn't take an operand"

structure BlockError where
  fault : BlockFault
  span : Span
  deriving DecidableEq, Repr

/-- The operation of a statement. A missing operand is no fault: the block stays unconfigured. -/
def Statement.op (s : Statement) : Except BlockFault Op :=
  match s.operand with
  | none => .ok (.ofParts s.opcode none none)
  | some (.cell c) =>
    if s.opcode.takesCell then .ok (.ofParts s.opcode (some c) none)
    else if s.opcode.takesLabel then .error (.expectedLabel s.opcode c)
    else .error (.unexpectedOperand s.opcode)
  | some (.name l) =>
    if s.opcode.takesLabel then .ok (.ofParts s.opcode none (some l))
    else if s.opcode.takesCell then .error (.expectedCell s.opcode l)
    else .error (.unexpectedOperand s.opcode)

def Statement.block (position : Nat) (s : Statement) : Except BlockError Instruction :=
  match s.op with
  | .ok op => .ok { position, op, label := s.label }
  | .error fault => .error ⟨fault, s.span⟩

def blocksFrom (position : Nat) : List Statement → List Instruction × List BlockError
  | [] => ([], [])
  | s :: rest =>
    let (blocks, errors) := blocksFrom (position + 1) rest
    match s.block position with
    | .ok b => (b :: blocks, errors)
    | .error e => (blocks, e :: errors)

def assemble (statements : List Statement) : Except (List BlockError) (List Instruction) :=
  match blocksFrom 0 statements with
  | (blocks, []) => .ok blocks
  | (_, errors) => .error errors

end BlockMachine.Source
