import BlockMachine.CommandLine.Response
import BlockMachine.Proofs.Source.Alignment

namespace BlockMachine.CommandLine

open Text Source

end BlockMachine.CommandLine
