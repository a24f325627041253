import Cosmac.Text.Lines
import Cosmac.Text.Alphanumeric
import Cosmac.Text.Quoted
import Cosmac.Text.Encoding
import Cosmac.Numeral.Literal
import Cosmac.Instruction.Table
import Cosmac.Diagnostic.Report
import Cosmac.Cursor
import Cosmac.Statement.Resolve
import Cosmac.IntelHex
import Cosmac.SymbolReport
import Cosmac.Disassembly
import Cosmac.Command.Assemble
import Cosmac.Command.Disassemble
import Cosmac.Main
import Cosmac.Proofs.Passes
import Cosmac.Proofs.Counter
import Cosmac.Proofs.Definitions
import Cosmac.Proofs.Labels
import Cosmac.Proofs.Repetition
import Cosmac.Proofs.Parts
import Cosmac.Proofs.FinalTable
import Cosmac.Proofs.Extension
import Cosmac.Proofs.Faults
import Cosmac.Proofs.Stability
import Cosmac.Proofs.Fixpoint
import Cosmac.Proofs.SourceText
import Cosmac.Proofs.Decoding
import Cosmac.Proofs.Images
import Cosmac.Proofs.Reassembly
import Cosmac.Proofs.Spelling
import Cosmac.Proofs.Grammar
import Cosmac.Proofs.Range
import Cosmac.Proofs.Encoding
import Cosmac.Proofs.FirstDefinition
import Cosmac.Proofs.Conversion
import Cosmac.Proofs.Completion
import Cosmac.Proofs.Listing
import Cosmac.Proofs.Diagnostics
import Cosmac.Proofs.HexFile
import Cosmac.Proofs.Memory
import Cosmac.Proofs.Capitals
import Cosmac.Proofs.LetterCase
import Cosmac.Proofs.AfterEnd
import Cosmac.Proofs.ForwardReferences
import Cosmac.Proofs.Splitting
import Cosmac.Proofs.PackedOperand
import Cosmac.Proofs.Emission
import Cosmac.Proofs.Denotation
import Cosmac.Proofs.TwoReadings
import Cosmac.Proofs.Overlay
import Cosmac.Proofs.HexRecords
import Cosmac.Proofs.SymbolHistory
import Cosmac.Proofs.CharacterBytes
import Cosmac.Proofs.StatementCuts
import Cosmac.Proofs.Tiling
import Cosmac.Proofs.Utf8
import Cosmac.Proofs.ListingRows
import Cosmac.Proofs.SymbolFile
import Cosmac.Proofs.Progress
