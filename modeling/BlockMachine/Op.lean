import BlockMachine.Opcode

namespace BlockMachine

/-- A symbolic jump target. The empty label marks nothing and is never found. -/
abbrev Label := String

def Label.sort (labels : List Label) : List Label := labels.mergeSort fun a b => a ≤ b

inductive Op where
  | inbox
  | outbox
  | copyTo (cell : Nat)
  | copyFrom (cell : Nat)
  | add (cell : Nat)
  | sub (cell : Nat)
  | jump (target : Label)
  | jumpIfZero (target : Label)
  | jumpIfNegative (target : Label)
  /-- A block that was placed and never given its operand. -/
  | unconfigured (opcode : Opcode)
  deriving DecidableEq, Repr

namespace Op

def opcode : Op → Opcode
  | inbox => .inbox
  | outbox => .outbox
  | copyTo _ => .copyTo
  | copyFrom _ => .copyFrom
  | add _ => .add
  | sub _ => .sub
  | jump _ => .jump
  | jumpIfZero _ => .jumpIfZero
  | jumpIfNegative _ => .jumpIfNegative
  | unconfigured o => o

def cell? : Op → Option Nat
  | copyTo c | copyFrom c | add c | sub c => some c
  | _ => none

def target? : Op → Option Label
  | jump l | jumpIfZero l | jumpIfNegative l => some l
  | _ => none

/-- The operation of a block as it was placed. An operand that the opcode does not use is
ignored; one that it needs and lacks, an empty label included, leaves it unconfigured. -/
def ofParts (o : Opcode) (cell : Option Nat) (target : Option Label) : Op :=
  match o, cell, target.filter (· ≠ "") with
  | .inbox, _, _ => inbox
  | .outbox, _, _ => outbox
  | .copyTo, some c, _ => copyTo c
  | .copyFrom, some c, _ => copyFrom c
  | .add, some c, _ => add c
  | .sub, some c, _ => sub c
  | .jump, _, some l => jump l
  | .jumpIfZero, _, some l => jumpIfZero l
  | .jumpIfNegative, _, some l => jumpIfNegative l
  | o, _, _ => unconfigured o

/-- Whatever operands it was given, a block keeps its opcode. -/
theorem opcode_ofParts (o : Opcode) (cell : Option Nat) (target : Option Label) :
    (ofParts o cell target).opcode = o := by
  unfold ofParts
  split <;> rfl

def operand? : Op → Option String
  | copyTo c | copyFrom c | add c | sub c => some (toString c)
  | jump l | jumpIfZero l | jumpIfNegative l => some l
  | inbox | outbox | unconfigured _ => none

def text (op : Op) : String :=
  match op.operand? with
  | none => op.opcode.name
  | some operand => op.opcode.name ++ " " ++ operand

end Op

end BlockMachine
