import DalvikHorn.Call.Library
import DalvikHorn.Call.Linkage
import DalvikHorn.Call.Site
import DalvikHorn.Call.Unknown
import DalvikHorn.Clause
import DalvikHorn.CommandLine.Invocation
import DalvikHorn.CommandLine.Options
import DalvikHorn.CommandLine.Run
import DalvikHorn.Compile.Facts
import DalvikHorn.Compile.Instruction
import DalvikHorn.Compile.Program
import DalvikHorn.Config.Basic
import DalvikHorn.Config.EditDistance
import DalvikHorn.Config.Json
import DalvikHorn.Config.Yaml
import DalvikHorn.Dalvik.Descriptor
import DalvikHorn.Dalvik.Instruction
import DalvikHorn.Dalvik.Json
import DalvikHorn.Dalvik.Opcode
import DalvikHorn.Dalvik.Program
import DalvikHorn.Decimal
import DalvikHorn.Dispatch.Cache
import DalvikHorn.Dispatch.Hierarchy
import DalvikHorn.Dispatch.Labels
import DalvikHorn.Dispatch.Oracle
import DalvikHorn.Error
import DalvikHorn.Formula.Basic
import DalvikHorn.Formula.Eval
import DalvikHorn.Formula.Text
import DalvikHorn.Formula.Variables
import DalvikHorn.Frame
import DalvikHorn.Heap.Global
import DalvikHorn.Heap.Layout
import DalvikHorn.Heap.Library
import DalvikHorn.Heap.Lifting
import DalvikHorn.Heap.Reachability
import DalvikHorn.Ident
import DalvikHorn.Json.Basic
import DalvikHorn.Json.Reader
import DalvikHorn.Json.Writer
import DalvikHorn.Main
import DalvikHorn.Proofs.Adequacy
import DalvikHorn.Proofs.ArgumentCopies
import DalvikHorn.Proofs.CallHandlers
import DalvikHorn.Proofs.Compiled
import DalvikHorn.Proofs.Consistency
import DalvikHorn.Proofs.Emitted
import DalvikHorn.Proofs.Folding
import DalvikHorn.Proofs.Frames
import DalvikHorn.Proofs.Handlers
import DalvikHorn.Proofs.Invariants
import DalvikHorn.Proofs.LeastModel
import DalvikHorn.Proofs.LibraryHandlers
import DalvikHorn.Proofs.LocalReferences
import DalvikHorn.Proofs.Machine
import DalvikHorn.Proofs.MethodReferences
import DalvikHorn.Proofs.ScalarSteps
import DalvikHorn.Proofs.Signatures
import DalvikHorn.Proofs.Sorted
import DalvikHorn.Proofs.Starts
import DalvikHorn.Proofs.StateFacts
import DalvikHorn.Proofs.Stored
import DalvikHorn.Proofs.Words
import DalvikHorn.Proofs.Yields
import DalvikHorn.Script
import DalvikHorn.State.Basic
import DalvikHorn.State.Cell
import DalvikHorn.State.Names
import DalvikHorn.Step.Arithmetic
import DalvikHorn.Step.Array
import DalvikHorn.Step.Branch
import DalvikHorn.Step.Context
import DalvikHorn.Step.Field
import DalvikHorn.Step.Object
import DalvikHorn.Step.Transfer
import DalvikHorn.Store
import DalvikHorn.Text.Blank
import DalvikHorn.Yaml.Character
import DalvikHorn.Yaml.Cursor
import DalvikHorn.Yaml.Node
import DalvikHorn.Yaml.Scalar
import DalvikHorn.Yaml.Tag
import DalvikHorn.Yaml.Token.Basic
import DalvikHorn.Yaml.Token.Block
import DalvikHorn.Yaml.Token.Flow
import DalvikHorn.Yaml.Token.Lexer
import DalvikHorn.Yaml.Token.Tag
import DalvikHorn.Yaml.Value
import DalvikHorn.Yaml.Writer
import DalvikHorn.Proofs.Declarations
import DalvikHorn.Proofs.Failures
import DalvikHorn.Proofs.FlushOrder
import DalvikHorn.Proofs.Bystanders
import DalvikHorn.Proofs.Lifting
import DalvikHorn.Proofs.Escapes
import DalvikHorn.Proofs.AllocationSites
import DalvikHorn.Proofs.ExplicitFlows
import DalvikHorn.Proofs.Simulation
import DalvikHorn.Proofs.Parallel
import DalvikHorn.Proofs.RaisedLabels
import DalvikHorn.Proofs.RaisedFacts
import DalvikHorn.Proofs.RisingHandlers
import DalvikHorn.Proofs.RisingCalls
import DalvikHorn.Proofs.MoreSources
import DalvikHorn.Proofs.ArrayIndices
import DalvikHorn.Proofs.Inheritance
import DalvikHorn.Proofs.VirtualDispatch
import DalvikHorn.Proofs.LinkedCalls
import DalvikHorn.Proofs.SinkQueries
import DalvikHorn.Proofs.CompiledMethods
import DalvikHorn.Proofs.SinkCoverage
import DalvikHorn.Proofs.Conflicts
import DalvikHorn.Proofs.PositiveClauses
import DalvikHorn.Proofs.DispatchTargets
import DalvikHorn.Proofs.ControlFlow
import DalvikHorn.Proofs.KeptInstructions
import DalvikHorn.Proofs.LibraryStores
import DalvikHorn.Proofs.LocalReachability
import DalvikHorn.Proofs.MergedQueries
import DalvikHorn.Proofs.DistinctNames
import DalvikHorn.Proofs.SelfContained
import DalvikHorn.Proofs.Comments
import DalvikHorn.Proofs.LayoutSlots
import DalvikHorn.Proofs.StoreCalls
import DalvikHorn.Proofs.JsonText
import DalvikHorn.Proofs.ProgramJson
import DalvikHorn.Proofs.LoadedReferences
import DalvikHorn.Proofs.LosslessLifts
import DalvikHorn.Proofs.Successors
import DalvikHorn.Proofs.Reallocation
import DalvikHorn.Proofs.LocalFields
import DalvikHorn.Proofs.CallFrames
import DalvikHorn.Proofs.Branches
import DalvikHorn.Proofs.UnknownCalls
import DalvikHorn.Proofs.Destinations
import DalvikHorn.Proofs.References
import DalvikHorn.Proofs.HierarchyWalks
import DalvikHorn.Proofs.Denotation
import DalvikHorn.Proofs.FoldedBodies
import DalvikHorn.Proofs.ConfigRoundTrip
import DalvikHorn.Proofs.EvaluatedVariables
import DalvikHorn.Proofs.VariableNames
import DalvikHorn.Proofs.ScriptNames
import DalvikHorn.Proofs.StateColumns
import DalvikHorn.Proofs.TextTrees
import DalvikHorn.Proofs.TextReading
import DalvikHorn.Proofs.DistinctRules
import DalvikHorn.Proofs.Edits
import DalvikHorn.Proofs.NearestFields
import DalvikHorn.Proofs.CachedDispatch
