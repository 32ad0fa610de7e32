import Bytecode.Main
import Bytecode.ConstantPool
import Bytecode.Proofs.ConstantPool.Layout
import Bytecode.Proofs.ConstantPool.Loading
import Bytecode.Proofs.ConstantPool.Zeros
import Bytecode.Proofs.ConstantPool.Sharing
import Bytecode.Proofs.ConstantPool.Overflow
import Bytecode.Proofs.Instruction.Stopping
import Bytecode.Proofs.Cursor.Walk
import Bytecode.Proofs.Code.RoundTrip
import Bytecode.Proofs.Code.Grammar
import Bytecode.Proofs.Code.FailingPlace
import Bytecode.Proofs.Code.Concatenation
import Bytecode.Proofs.Code.Marks
import Bytecode.Proofs.Code.Lookup
import Bytecode.Proofs.Code.Capacity
import Bytecode.Proofs.Statistics.Totals
import Bytecode.Proofs.Listing.Lines
import Bytecode.Proofs.Listing.Verbose
import Bytecode.Proofs.Hex.Tokens
import Bytecode.Proofs.Hex.DumpLines
import Bytecode.Proofs.Report.MarkedByte
import Bytecode.Proofs.CommandLine.LineByLine
import Bytecode.Proofs.Constant.LoadedType
import Bytecode.Proofs.Hex.Spelling
import Bytecode.Proofs.Instruction.Families
import Bytecode.Proofs.ConstantPool.Items
import Bytecode.Proofs.ConstantPool.Demand
import Bytecode.Proofs.Instruction.Decoders
import Bytecode.Proofs.Code.Lending
import Bytecode.Proofs.Code.Shortening
import Bytecode.Proofs.Statistics.Ranking
import Bytecode.Proofs.ValueType.Signatures
import Bytecode.Proofs.Constant.ReferenceForm
import Bytecode.Proofs.Visit.Blocks
import Bytecode.Proofs.Report.MissingBytes
