namespace BlockMachine

inductive Opcode where
  | inbox | outbox | copyTo | copyFrom | add | sub | jump | jumpIfZero | jumpIfNegative
  deriving DecidableEq, Repr

namespace Opcode

def all : List Opcode :=
  [inbox, outbox, copyTo, copyFrom, add, sub, jump, jumpIfZero, jumpIfNegative]

def name : Opcode → String
  | inbox => "INBOX"
  | outbox => "OUTBOX"
  | copyTo => "COPYTO"
  | copyFrom => "COPYFROM"
  | add => "ADD"
  | sub => "SUB"
  | jump => "JUMP"
  | jumpIfZero => "JUMP_IF_ZERO"
  | jumpIfNegative => "JUMP_IF_NEGATIVE"

def takesCell : Opcode → Bool
  | copyTo | copyFrom | add | sub => true
  | _ => false

def takesLabel : Opcode → Bool
  | jump | jumpIfZero | jumpIfNegative => true
  | _ => false

def rank (o : Opcode) : Nat := all.idxOf o

def sort (opcodes : List Opcode) : List Opcode := opcodes.mergeSort fun a b => a.rank ≤ b.rank

def fold (letters : List Char) : List Char := letters.map Char.toUpper

def spelled? (letters : List Char) : Option Opcode :=
  all.find? fun o => o.name.toList == fold letters

def ofName? (text : String) : Option Opcode := spelled? text.toList

/-- An opcode is spelled by its name, in upper or lower case, and by nothing else. -/
theorem spelled?_eq_some_iff {letters : List Char} {o : Opcode} :
    spelled? letters = some o ↔ o.name.toList = fold letters := by
  constructor
  · intro h
    simpa using List.find?_some h
  · intro h
    rw [spelled?, ← h]
    cases o <;> decide

theorem spelled?_name (o : Opcode) : spelled? o.name.toList = some o :=
  spelled?_eq_some_iff.mpr (by cases o <;> decide)

def unknownMessage (word : String) : String := s!"unknown opcode `{word}`"

end Opcode

end BlockMachine
