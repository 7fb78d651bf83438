import BlockMachine.Instruction
import BlockMachine.Text.Column

namespace BlockMachine.Source

open Text

def labelText : Option Label → String
  | none => ""
  | some l => l ++ ": "

/-- Width of the label column. It is measured in bytes, so that it holds every label. -/
def labelWidth (blocks : List Instruction) : Nat :=
  (blocks.map fun b => (labelText b.label).utf8ByteSize).foldl max 0

def line (width : Nat) (b : Instruction) : String := padRight width (labelText b.label) ++ b.op.text

def listing (blocks : List Instruction) : String :=
  String.intercalate "\n" (blocks.map (line (labelWidth blocks)))

end BlockMachine.Source
