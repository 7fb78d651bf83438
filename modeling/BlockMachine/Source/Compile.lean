import BlockMachine.Source.Block
import BlockMachine.Source.Listing

namespace BlockMachine.Source

inductive CompileError where
  | unreadable (e : SyntaxError)
  | malformed (errors : List BlockError)
  deriving DecidableEq, Repr

def CompileError.message : CompileError → String
  | unreadable _ => "program has 1 syntax error(s)"
  | malformed errors => s!"program has {errors.length} malformed block(s)"

def compile (source : String) : Except CompileError (List Instruction) := do
  let statements ← (parse source).mapError .unreadable
  (assemble statements).mapError .malformed

/-- Whether a program is well formed, found by reading its own listing. -/
def readsBack (blocks : List Instruction) : Bool :=
  match compile (listing blocks) with
  | .ok again => again == blocks
  | .error _ => false

end BlockMachine.Source
