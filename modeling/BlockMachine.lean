import BlockMachine.Opcode
import BlockMachine.Op
import BlockMachine.Instruction
import BlockMachine.Memory
import BlockMachine.Program
import BlockMachine.Puzzle
import BlockMachine.Puzzle.Catalog
import BlockMachine.Machine.State
import BlockMachine.Machine.Run
import BlockMachine.Text.CharClass
import BlockMachine.Text.Blank
import BlockMachine.Text.IdentifierRanges
import BlockMachine.Text.Identifier
import BlockMachine.Text.Column
import BlockMachine.Source.Piece
import BlockMachine.Source.Statement
import BlockMachine.Source.Block
import BlockMachine.Source.Listing
import BlockMachine.Source.Compile
import BlockMachine.Session
import BlockMachine.CommandLine.Verbosity
import BlockMachine.CommandLine.Arguments
import BlockMachine.CommandLine.Response
import BlockMachine.Main
import BlockMachine.Proofs.Source.Grammar
import BlockMachine.Proofs.Source.Pieces
import BlockMachine.Proofs.Source.Reading
import BlockMachine.Proofs.Source.Acceptance
import BlockMachine.Proofs.Source.Assembly
import BlockMachine.Proofs.Source.ReadBack
import BlockMachine.Proofs.Machine.Steps
import BlockMachine.Proofs.Machine.Causality
import BlockMachine.Proofs.Session.Stepping
import BlockMachine.Proofs.CommandLine.Stepwise
import BlockMachine.Proofs.Machine.Outcome
import BlockMachine.Proofs.Machine.Values
import BlockMachine.Proofs.Machine.Termination
import BlockMachine.Proofs.Puzzle.Solvability
import BlockMachine.Proofs.Machine.Relocation
import BlockMachine.Proofs.Machine.Trace
import BlockMachine.Proofs.Program.Addressing
import BlockMachine.Proofs.Machine.Inert
import BlockMachine.Proofs.Machine.AppendOnly
import BlockMachine.Proofs.Machine.Books
import BlockMachine.Proofs.Machine.Placement
import BlockMachine.Proofs.Machine.Slices
import BlockMachine.Proofs.Source.Reload
import BlockMachine.Proofs.Machine.FreshStart
import BlockMachine.Proofs.Machine.Bounds
import BlockMachine.Proofs.Program.Rearrangement
import BlockMachine.Proofs.Machine.Appending
import BlockMachine.Proofs.Machine.Mapping
import BlockMachine.Proofs.Program.Renaming
import BlockMachine.Proofs.Machine.Streaming
import BlockMachine.Proofs.Machine.Atomicity
import BlockMachine.Proofs.Source.Concatenation
import BlockMachine.Proofs.Source.Stretches
import BlockMachine.Proofs.Source.Progress
import BlockMachine.Proofs.Source.Spans
import BlockMachine.Proofs.Source.SyntaxErrors
import BlockMachine.Proofs.Source.Misfits
import BlockMachine.Proofs.Machine.Configuration
import BlockMachine.Proofs.Source.LetterCase
import BlockMachine.Proofs.Machine.Storage
import BlockMachine.Proofs.Source.Alignment
