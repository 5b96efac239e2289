import StackCode.Cache.Basic
import StackCode.Cache.File
import StackCode.Canonical
import StackCode.Cbor.Decode
import StackCode.Cbor.Item
import StackCode.Code.Basic
import StackCode.Code.Builder
import StackCode.Command.Build
import StackCode.Command.Flag
import StackCode.Command.Inputs
import StackCode.Command.Line
import StackCode.Command.Perform
import StackCode.Command.Project
import StackCode.Command.Run
import StackCode.Command.Serve
import StackCode.Command.Session
import StackCode.Compile
import StackCode.Digest
import StackCode.Disk
import StackCode.Emit.Basic
import StackCode.Emit.Error
import StackCode.Emit.Piece
import StackCode.FileTree
import StackCode.Instr
import StackCode.Loader
import StackCode.Machine.Arith
import StackCode.Machine.Datum
import StackCode.Machine.Fault
import StackCode.Machine.Run
import StackCode.Machine.Step
import StackCode.Main
import StackCode.Manifest
import StackCode.Manifest.Load
import StackCode.MessagePack.Item
import StackCode.Module.Basic
import StackCode.Module.Printer
import StackCode.Module.Reader
import StackCode.Module.Words
import StackCode.Number.Binary64
import StackCode.Number.Duration
import StackCode.Number.Integer
import StackCode.Number.Literal
import StackCode.Number.Shortest
import StackCode.Opcode
import StackCode.Optimize
import StackCode.Path
import StackCode.Pool
import StackCode.Program.Basic
import StackCode.Program.Binary
import StackCode.Program.Cbor
import StackCode.Program.Envelope
import StackCode.Program.Format
import StackCode.Program.Listing
import StackCode.Program.MessagePack
import StackCode.Resolver.Basic
import StackCode.Resolver.Name
import StackCode.Server.Address
import StackCode.Server.Message
import StackCode.Server.Service
import StackCode.Server.Worker
import StackCode.Text.Basic
import StackCode.Text.Ident
import StackCode.Text.Printable
import StackCode.Text.Quoted
import StackCode.Text.Reader
import StackCode.Text.Rune
import StackCode.Toml.Document
import StackCode.Toml.Reader
import StackCode.Toml.Scalar
import StackCode.Toml.Syntax
import StackCode.Value
import StackCode.Proofs.CodeReading
import StackCode.Proofs.Fetching
import StackCode.Proofs.ConstantPool
import StackCode.Proofs.PoolSearch
import StackCode.Proofs.Layout
import StackCode.Proofs.Process
import StackCode.Proofs.Emission
import StackCode.Proofs.EmissionVerifies
import StackCode.Proofs.EmissionSimulation
import StackCode.Proofs.Folding
import StackCode.Proofs.OptimizationSimulation
import StackCode.Proofs.ExecutionSafety
import StackCode.Proofs.BinaryRoundTrip
import StackCode.Proofs.Renaming
import StackCode.Proofs.CanonicalForm
import StackCode.Proofs.CborReading
import StackCode.Proofs.CborRoundTrip
import StackCode.Proofs.BuildCache
import StackCode.Proofs.Runes
import StackCode.Proofs.MessagePackReading
import StackCode.Proofs.MessagePackRoundTrip
import StackCode.Proofs.StoredForms
import StackCode.Proofs.DecimalDigits
import StackCode.Proofs.NearestBinary
import StackCode.Proofs.ShortestDecimal
import StackCode.Proofs.DecimalText
import StackCode.Proofs.FloatText
import StackCode.Proofs.Quotation
import StackCode.Proofs.LineWords
import StackCode.Proofs.Identifiers
import StackCode.Proofs.InstructionText
import StackCode.Proofs.DeclarationText
import StackCode.Proofs.ModuleReading
import StackCode.Proofs.ModuleWriting
import StackCode.Proofs.ModuleText
import StackCode.Proofs.Emittability
import StackCode.Proofs.LexicalPaths
import StackCode.Proofs.Resolution
import StackCode.Proofs.ArtifactLoading
import StackCode.Proofs.KeptAnswers
import StackCode.Proofs.CacheTable
import StackCode.Proofs.FormRecognition
import StackCode.Proofs.StatedVersions
import StackCode.Proofs.LoadedModules
import StackCode.Proofs.OptimizedBuilds
import StackCode.Proofs.Interleavings
import StackCode.Proofs.WorkerSerialization
import StackCode.Proofs.BatchCompilation
import StackCode.Proofs.EmitterReuse
import StackCode.Proofs.WatchedRuns
import StackCode.Proofs.StackEffects
import StackCode.Proofs.CallDepth
import StackCode.Proofs.Cancellation
import StackCode.Proofs.ForwardJumps
import StackCode.Proofs.Containment
import StackCode.Proofs.PrintableResults
import StackCode.Proofs.SearchRoots
import StackCode.Proofs.ForgottenNames
import StackCode.Proofs.AssignmentShapes
import StackCode.Proofs.TruncatedForms
import StackCode.Proofs.FoldedOperators
import StackCode.Proofs.JumpPatching
import StackCode.Proofs.ProjectOutputs
