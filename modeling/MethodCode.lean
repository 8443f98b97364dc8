import MethodCode.Descriptor.Category
import MethodCode.Instruction.Decoded
import MethodCode.Linking.Constants
import MethodCode.Linking.Quicken
import MethodCode.Linking.Resolver
import MethodCode.Linking.Rewrite
import MethodCode.Pool.Builder
import MethodCode.Symbol.Reading
import MethodCode.Walk
import MethodCode.Proofs.Execution
import MethodCode.Proofs.Code.Bytes
import MethodCode.Proofs.Cursor.Length
import MethodCode.Proofs.Code.Instruction
import MethodCode.Proofs.Code.Starts
import MethodCode.Proofs.Linking.Allocation
import MethodCode.Proofs.Linking.Site
import MethodCode.Proofs.Linking.Frame
import MethodCode.Proofs.Linking.Pass
import MethodCode.Proofs.Cursor.Index
import MethodCode.Proofs.Instruction.Reference
import MethodCode.Proofs.Linking.PoolIndex
import MethodCode.Proofs.Instruction.SameStructure
import MethodCode.Proofs.Linking.Structure
import MethodCode.Proofs.Linking.Quickening
import MethodCode.Proofs.Execution.Failures
import MethodCode.Proofs.Execution.Breaches
import MethodCode.Proofs.Mode.Agreement
import MethodCode.Proofs.Mode.Decoding
import MethodCode.Proofs.Mode.Linking
import MethodCode.Proofs.Mode.Operation
import MethodCode.Proofs.Code.Walk
import MethodCode.Proofs.Code.Tiling
import MethodCode.Proofs.Instruction.SwitchLayout
import MethodCode.Proofs.Linking.References
import MethodCode.Proofs.Instruction.Report
import MethodCode.Proofs.Instruction.SameFrom
import MethodCode.Proofs.Linking.AnyResolver
import MethodCode.Proofs.Linking.QuickenStep
import MethodCode.Proofs.Linking.Invisible
import MethodCode.Proofs.Linking.Confluence
import MethodCode.Proofs.Linking.EntryKind
import MethodCode.Proofs.Linking.Clash
import MethodCode.Proofs.Linking.KindSafety
import MethodCode.Proofs.Linking.LinkedClass
import MethodCode.Proofs.Linking.Acceptance
import MethodCode.Proofs.Linking.Sharing
import MethodCode.Proofs.Instruction.Safety
import MethodCode.Proofs.Linking.MadeConstants
import MethodCode.Proofs.Linking.LoadMeaning
import MethodCode.Proofs.Descriptor.Grammar
import MethodCode.Proofs.Instruction.Locality
import MethodCode.Proofs.Pool.Building
import MethodCode.Proofs.Pool.Answers
import MethodCode.Proofs.Linking.InvokeStep
import MethodCode.Proofs.Linking.OneOffer
import MethodCode.Proofs.Linking.Target
import MethodCode.Proofs.Linking.OwnSite
import MethodCode.Proofs.Linking.FailedQuickening
import MethodCode.Proofs.Linking.Held
import MethodCode.Proofs.Linking.FieldForm
import MethodCode.Proofs.Pool.MethodTypes
import MethodCode.Proofs.Linking.MadeOnce
import MethodCode.Proofs.Format.Trailing
import MethodCode.Proofs.FormatTable.Lengths
import MethodCode.Proofs.Instruction.PairLayout
import MethodCode.Proofs.Format.Layout
import MethodCode.Proofs.FormatTable.Definitions
import MethodCode.Proofs.Descriptor.Parameters
import MethodCode.Proofs.Cursor.Claim
import MethodCode.Proofs.Format.Field
import MethodCode.Proofs.Cursor.IndexRead
import MethodCode.Proofs.Instruction.OperandLayout
import MethodCode.Proofs.Linking.Accounting
import MethodCode.Proofs.Linking.SlotUse
import MethodCode.Proofs.Linking.LoadCategory
import MethodCode.Proofs.Pool.Positions
import MethodCode.Proofs.Pool.WellFormed
import MethodCode.Proofs.Symbol.Identity
