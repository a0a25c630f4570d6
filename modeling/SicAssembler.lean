import SicAssembler.Address
import SicAssembler.Assembler
import SicAssembler.ByteLiteral
import SicAssembler.Command.Arguments
import SicAssembler.Command.FileTree
import SicAssembler.Command.Path
import SicAssembler.Command.Run
import SicAssembler.Diagnostic
import SicAssembler.Layout
import SicAssembler.Listing
import SicAssembler.Machine
import SicAssembler.Machine.Catalog
import SicAssembler.Machine.Register
import SicAssembler.Main
import SicAssembler.Numeral
import SicAssembler.ObjectCode.BigEndian
import SicAssembler.ObjectCode.Displacement
import SicAssembler.ObjectCode.Encode
import SicAssembler.ObjectCode.Flags
import SicAssembler.ObjectCode.MachineCode
import SicAssembler.ObjectLine
import SicAssembler.ObjectProgram
import SicAssembler.ObjectProgram.Memory
import SicAssembler.ObjectProgram.Packing
import SicAssembler.ObjectProgram.Reader
import SicAssembler.ObjectProgram.Record
import SicAssembler.ObjectProgram.TextBuffer
import SicAssembler.Operand
import SicAssembler.Proofs.Aftermath
import SicAssembler.Proofs.Assembly
import SicAssembler.Proofs.ByteLiteral
import SicAssembler.Proofs.CheckedRun
import SicAssembler.Proofs.Columns
import SicAssembler.Proofs.CommandEffects
import SicAssembler.Proofs.Decoding
import SicAssembler.Proofs.Encoding
import SicAssembler.Proofs.Extensions
import SicAssembler.Proofs.Faults
import SicAssembler.Proofs.FileWrites
import SicAssembler.Proofs.FirstDefinitions
import SicAssembler.Proofs.FirstError
import SicAssembler.Proofs.FirstPass
import SicAssembler.Proofs.Generation
import SicAssembler.Proofs.Grammar
import SicAssembler.Proofs.Immediates
import SicAssembler.Proofs.InertLines
import SicAssembler.Proofs.Literals
import SicAssembler.Proofs.Loading
import SicAssembler.Proofs.Modifications
import SicAssembler.Proofs.MovedCode
import SicAssembler.Proofs.MovedLayout
import SicAssembler.Proofs.MovedProgram
import SicAssembler.Proofs.Numerals
import SicAssembler.Proofs.Placement
import SicAssembler.Proofs.Printing
import SicAssembler.Proofs.ProgramEnd
import SicAssembler.Proofs.Ranges
import SicAssembler.Proofs.RecordBreaks
import SicAssembler.Proofs.RecordLines
import SicAssembler.Proofs.References
import SicAssembler.Proofs.Relabelling
import SicAssembler.Proofs.Relocation
import SicAssembler.Proofs.Respelling
import SicAssembler.Proofs.Reuse
import SicAssembler.Proofs.SharedSource
import SicAssembler.Proofs.Source
import SicAssembler.Proofs.SourceSafety
import SicAssembler.Proofs.Spelling
import SicAssembler.Proofs.StartAddresses
import SicAssembler.Proofs.Stopping
import SicAssembler.Proofs.TextRecords
import SicAssembler.Proofs.UniqueDecoding
import SicAssembler.Proofs.UpwardCompatibility
import SicAssembler.Proofs.WordLayout
import SicAssembler.Proofs.WordValues
import SicAssembler.SourceLine
import SicAssembler.Statement
import SicAssembler.Statement.Directive
import SicAssembler.Statement.Words
import SicAssembler.SymbolTable
import SicAssembler.Text.Blank
import SicAssembler.Text.Column
import SicAssembler.Text.Lines
import SicAssembler.Text.Separated
