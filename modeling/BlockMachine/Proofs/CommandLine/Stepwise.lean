import BlockMachine.Proofs.CommandLine.Printing
import BlockMachine.Proofs.Session.Stepping

namespace BlockMachine.CommandLine

section

variable {s : Session} {k : Nat}

end

end BlockMachine.CommandLine
