import ClassCompiler.CommandLine.Arguments
import ClassCompiler.CommandLine.Report
import ClassCompiler.CommandLine.Request
import ClassCompiler.CommandLine.Response
import ClassCompiler.CommandLine.Run
import ClassCompiler.Compile
import ClassCompiler.Decimal.Digits
import ClassCompiler.Decimal.Shortest
import ClassCompiler.Error
import ClassCompiler.Import
import ClassCompiler.Json.Document
import ClassCompiler.Json.Fields
import ClassCompiler.Json.Number
import ClassCompiler.Json.Printer
import ClassCompiler.Json.Record
import ClassCompiler.Json.Token
import ClassCompiler.Json.Value
import ClassCompiler.Main
import ClassCompiler.NameSupply
import ClassCompiler.Node
import ClassCompiler.Node.Document
import ClassCompiler.Node.Kind
import ClassCompiler.Operator
import ClassCompiler.Options
import ClassCompiler.Options.Document
import ClassCompiler.Options.Quoted
import ClassCompiler.Options.Reader
import ClassCompiler.Program
import ClassCompiler.Program.Description
import ClassCompiler.Program.OfNode
import ClassCompiler.Proofs.Acceptance.Emission
import ClassCompiler.Proofs.Acceptance.Lowering
import ClassCompiler.Proofs.Acceptance.Operands
import ClassCompiler.Proofs.Acceptance.WellFormed
import ClassCompiler.Proofs.Assembly.Emitted
import ClassCompiler.Proofs.Assembly.Lines
import ClassCompiler.Proofs.Assembly.Listing
import ClassCompiler.Proofs.Assembly.Literals
import ClassCompiler.Proofs.Assembly.Quoted
import ClassCompiler.Proofs.Assembly.Reader
import ClassCompiler.Proofs.Assembly.RoundTrip
import ClassCompiler.Proofs.Categories.Operations
import ClassCompiler.Proofs.Categories.Safety
import ClassCompiler.Proofs.Categories.Slots
import ClassCompiler.Proofs.Categories.WellTyped
import ClassCompiler.Proofs.Effects
import ClassCompiler.Proofs.Emission.Balance
import ClassCompiler.Proofs.Emission.Blocks
import ClassCompiler.Proofs.Emission.Classes
import ClassCompiler.Proofs.Emission.Code
import ClassCompiler.Proofs.Emission.Comparisons
import ClassCompiler.Proofs.Emission.Descriptors
import ClassCompiler.Proofs.Emission.Faults
import ClassCompiler.Proofs.Emission.Increments
import ClassCompiler.Proofs.Emission.Independence
import ClassCompiler.Proofs.Emission.Instructions
import ClassCompiler.Proofs.Emission.Jumps
import ClassCompiler.Proofs.Emission.Labels
import ClassCompiler.Proofs.Emission.Linking
import ClassCompiler.Proofs.Emission.Methods
import ClassCompiler.Proofs.Emission.Operands
import ClassCompiler.Proofs.Emission.Operations
import ClassCompiler.Proofs.Emission.Parts
import ClassCompiler.Proofs.Emission.Preservation
import ClassCompiler.Proofs.Emission.Realization
import ClassCompiler.Proofs.Emission.Rows
import ClassCompiler.Proofs.Emission.Simulation
import ClassCompiler.Proofs.Emission.Slots
import ClassCompiler.Proofs.Emission.StackDepth
import ClassCompiler.Proofs.Emission.Values
import ClassCompiler.Proofs.Emission.Verified
import ClassCompiler.Proofs.Imports
import ClassCompiler.Proofs.Json.Documents
import ClassCompiler.Proofs.Json.Nodes
import ClassCompiler.Proofs.Json.SymbolTables
import ClassCompiler.Proofs.Json.Values
import ClassCompiler.Proofs.Layout
import ClassCompiler.Proofs.Lowering.Allocation
import ClassCompiler.Proofs.Lowering.ArrayLiterals
import ClassCompiler.Proofs.Lowering.CallOrder
import ClassCompiler.Proofs.Lowering.Control
import ClassCompiler.Proofs.Lowering.Correctness
import ClassCompiler.Proofs.Lowering.Expressions
import ClassCompiler.Proofs.Lowering.Faults
import ClassCompiler.Proofs.Lowering.Growth
import ClassCompiler.Proofs.Lowering.Inversion
import ClassCompiler.Proofs.Lowering.Invocations
import ClassCompiler.Proofs.Lowering.Labels
import ClassCompiler.Proofs.Lowering.Nesting
import ClassCompiler.Proofs.Lowering.Placements
import ClassCompiler.Proofs.Lowering.Programs
import ClassCompiler.Proofs.Lowering.Relation
import ClassCompiler.Proofs.Lowering.Rendering
import ClassCompiler.Proofs.Lowering.ResultTypes
import ClassCompiler.Proofs.Lowering.Simple
import ClassCompiler.Proofs.Lowering.Statements
import ClassCompiler.Proofs.Lowering.Straight
import ClassCompiler.Proofs.Lowering.StringLiterals
import ClassCompiler.Proofs.Lowering.Temporaries
import ClassCompiler.Proofs.Lowering.Varargs
import ClassCompiler.Proofs.Members
import ClassCompiler.Proofs.Names
import ClassCompiler.Proofs.NodeTrees.ArrayLayers
import ClassCompiler.Proofs.NodeTrees.Checks
import ClassCompiler.Proofs.NodeTrees.ChildCounts
import ClassCompiler.Proofs.NodeTrees.Encoding
import ClassCompiler.Proofs.Parentheses
import ClassCompiler.Proofs.Returns
import ClassCompiler.Proofs.Semantics.Arrays
import ClassCompiler.Proofs.Semantics.Body
import ClassCompiler.Proofs.Semantics.Coverage
import ClassCompiler.Proofs.Semantics.Flow
import ClassCompiler.Proofs.Semantics.Hints
import ClassCompiler.Proofs.Semantics.LabelRecord
import ClassCompiler.Proofs.Semantics.Memory
import ClassCompiler.Proofs.Semantics.Occurrences
import ClassCompiler.Proofs.Semantics.Placement
import ClassCompiler.Proofs.Semantics.Source
import ClassCompiler.Proofs.Semantics.StackCode
import ClassCompiler.Proofs.Semantics.ThreeAddress
import ClassCompiler.Proofs.Semantics.Transition
import ClassCompiler.Proofs.Semantics.Typing
import ClassCompiler.Proofs.Semantics.World
import ClassCompiler.Proofs.SimpleClasses
import ClassCompiler.Proofs.StaticMethods
import ClassCompiler.Proofs.StringConstants
import ClassCompiler.Proofs.VoidCalls
import ClassCompiler.StackCode.ClassFile
import ClassCompiler.StackCode.Comparison
import ClassCompiler.StackCode.Descriptor
import ClassCompiler.StackCode.Frame
import ClassCompiler.StackCode.Instr
import ClassCompiler.StackCode.OfClass
import ClassCompiler.StackCode.OfInstr
import ClassCompiler.StackCode.Paths
import ClassCompiler.StackCode.Selection
import ClassCompiler.SymbolTable
import ClassCompiler.SymbolTable.Document
import ClassCompiler.Text.Hex
import ClassCompiler.Text.Quoted
import ClassCompiler.Text.Unprintable
import ClassCompiler.ThreeAddress.Instr
import ClassCompiler.ThreeAddress.Listing
import ClassCompiler.ThreeAddress.Method
import ClassCompiler.ThreeAddress.OfExpr
import ClassCompiler.ThreeAddress.OfProgram
import ClassCompiler.ThreeAddress.OfStmt
import ClassCompiler.ThreeAddress.Scope
import ClassCompiler.ThreeAddress.Value
import ClassCompiler.Ty
