import BlockMachine.Op
import BlockMachine.Source.Piece

/-! Statements: an optional label, an opcode, an optional operand. A text is read piece by piece;
blanks and comments may stand between statements, inside a statement only blanks. Reading stops
at the first piece that cannot be used. -/
namespace BlockMachine.Source

structure Span where
  start : Nat
  stop : Nat
  deriving DecidableEq, Repr

inductive Operand where
  | cell (address : Nat)
  | name (label : Label)
  deriving DecidableEq, Repr

/-- The span begins at the label, or at the opcode if there is none. It ends with the opcode, or
with the blanks after the operand. -/
structure Statement where
  label : Option Label
  opcode : Opcode
  operand : Option Operand
  span : Span
  deriving DecidableEq, Repr

inductive SyntaxFault where
  | unknownOpcode (word : String)
  | noStatement (found : Char)
  | noOpcode (found : Char)
  | unfinished
  deriving DecidableEq, Repr

def SyntaxFault.message : SyntaxFault → String
  | unknownOpcode w => Opcode.unknownMessage w
  | noStatement c => s!"found '{c}' expected identifier, '#', or end of input"
  | noOpcode c => s!"found '{c}' expected identifier"
  | unfinished => "found end of input expected any"

structure SyntaxError where
  fault : SyntaxFault
  span : Span
  deriving DecidableEq, Repr

def cellBound : Nat := Nat.pow 2 64

def Kind.operand? : Kind → Option Operand
  | .numeral n => if n < cellBound then some (.cell n) else none
  | .name w => some (.name w)
  | _ => none

inductive Progress where
  | between
  | labelled (label : Label) (start : Nat)
  | opened (s : Statement)
  /-- The statement has its operand and takes in the blanks after it. -/
  | filled (s : Statement)
  deriving DecidableEq, Repr

def Statement.extendTo (s : Statement) (stop : Nat) : Statement :=
  { s with span.stop := stop }

namespace Progress

def begin (offset : Nat) (p : Piece) : Except SyntaxError Progress :=
  match p.kind with
  | .blank | .comment => .ok .between
  | .label l => .ok (.labelled l offset)
  | .opcode o => .ok (.opened ⟨none, o, none, ⟨offset, offset + p.size⟩⟩)
  | .name w => .error ⟨.unknownOpcode w, ⟨offset, offset + p.size⟩⟩
  | .numeral _ | .symbol => .error ⟨.noStatement p.first, ⟨offset, offset + p.first.utf8Size⟩⟩

def afterLabel (l : Label) (start offset : Nat) (p : Piece) : Except SyntaxError Progress :=
  match p.kind with
  | .blank => .ok (.labelled l start)
  | .opcode o => .ok (.opened ⟨some l, o, none, ⟨start, offset + p.size⟩⟩)
  | .name w | .label w => .error ⟨.unknownOpcode w, ⟨offset, offset + w.utf8ByteSize⟩⟩
  | .comment | .numeral _ | .symbol =>
    .error ⟨.noOpcode p.first, ⟨offset, offset + p.first.utf8Size⟩⟩

def read (offset : Nat) (p : Piece) : Progress → Except SyntaxError (Option Statement × Progress)
  | between => (none, ·) <$> begin offset p
  | labelled l start => (none, ·) <$> afterLabel l start offset p
  | opened s =>
    match p.kind.operand? with
    | some a => .ok (none, .filled ({ s with operand := some a }.extendTo (offset + p.size)))
    -- blanks after the opcode do not belong to the statement unless an operand follows them
    | none => if p.kind = .blank then .ok (none, opened s) else (some s, ·) <$> begin offset p
  | filled s =>
    if p.kind = .blank then .ok (none, filled (s.extendTo (offset + p.size)))
    else (some s, ·) <$> begin offset p

def finish (offset : Nat) : Progress → Except SyntaxError (List Statement)
  | between => .ok []
  | labelled _ _ => .error ⟨.unfinished, ⟨offset, offset⟩⟩
  | opened s | filled s => .ok [s]

end Progress

def statementsFrom (offset : Nat) (state : Progress) :
    List Piece → Except SyntaxError (List Statement)
  | [] => state.finish offset
  | p :: ps => do
    let (done, next) ← state.read offset p
    let rest ← statementsFrom (offset + p.size) next ps
    return done.toList ++ rest

def parse (source : String) : Except SyntaxError (List Statement) :=
  statementsFrom 0 .between (scan source.toList)

end BlockMachine.Source
