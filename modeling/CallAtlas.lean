import CallAtlas.Bytecode.CallSite
import CallAtlas.Bytecode.ControlFlow
import CallAtlas.Bytecode.Instruction
import CallAtlas.Bytecode.Opcode
import CallAtlas.Bytes.Cursor
import CallAtlas.Bytes.Reader
import CallAtlas.CallGraph.Edge
import CallAtlas.CallGraph.Flow
import CallAtlas.CallGraph.Survey
import CallAtlas.ClassFile.Assembler
import CallAtlas.ClassFile.Basic
import CallAtlas.ClassFile.Parse
import CallAtlas.ClassFile.Pool
import CallAtlas.ClassFile.Problem
import CallAtlas.Closure
import CallAtlas.Command.Configure
import CallAtlas.Command.Execute
import CallAtlas.Command.Flag
import CallAtlas.Command.Line
import CallAtlas.Command.Usage
import CallAtlas.Diagnostic
import CallAtlas.Drawing.Blocks
import CallAtlas.Drawing.Calls
import CallAtlas.Drawing.Classes
import CallAtlas.Drawing.Dot
import CallAtlas.Drawing.FileName
import CallAtlas.Drawing.Flow
import CallAtlas.Drawing.Header
import CallAtlas.Drawing.Methods
import CallAtlas.Drawing.Network
import CallAtlas.Drawing.Page
import CallAtlas.Drawing.Reach
import CallAtlas.Drawing.Signals
import CallAtlas.Drawing.Theme
import CallAtlas.Exclude.CodeSet
import CallAtlas.Exclude.Machine
import CallAtlas.Exclude.Parse
import CallAtlas.Exclude.Pattern
import CallAtlas.Exclude.Regex
import CallAtlas.Facts.Descriptor
import CallAtlas.Facts.Location
import CallAtlas.Facts.Naming
import CallAtlas.Facts.Store
import CallAtlas.Failure
import CallAtlas.Files.Path
import CallAtlas.Files.Tree
import CallAtlas.Log
import CallAtlas.Main
import CallAtlas.Program.Build
import CallAtlas.Program.Hierarchy
import CallAtlas.Program.Load
import CallAtlas.Proofs.Bytecode.Blocks
import CallAtlas.Proofs.Bytecode.Encoding
import CallAtlas.Proofs.Bytecode.Listing
import CallAtlas.Proofs.Bytecode.Tiling
import CallAtlas.Proofs.Bytes.Exact
import CallAtlas.Proofs.Bytes.Reading
import CallAtlas.Proofs.Bytes.Steps
import CallAtlas.Proofs.CallGraph.Edges
import CallAtlas.Proofs.CallGraph.Externals
import CallAtlas.Proofs.ClassFile.Emission
import CallAtlas.Proofs.ClassFile.Encoding
import CallAtlas.Proofs.ClassFile.Interning
import CallAtlas.Proofs.ClassFile.Lookup
import CallAtlas.Proofs.ClassFile.Naming
import CallAtlas.Proofs.ClassFile.RoundTrip
import CallAtlas.Proofs.ClassFile.Truncation
import CallAtlas.Proofs.Closure
import CallAtlas.Proofs.Facts.History
import CallAtlas.Proofs.Facts.Insertion
import CallAtlas.Proofs.Facts.Key
import CallAtlas.Proofs.Facts.Order
import CallAtlas.Proofs.Facts.Recording
import CallAtlas.Proofs.Files.Names
import CallAtlas.Proofs.Neighbourhood
import CallAtlas.Proofs.SearchOrder
import CallAtlas.Proofs.Orders
import CallAtlas.Proofs.Parallel.Cache
import CallAtlas.Proofs.Parallel.Independence
import CallAtlas.Proofs.Parallel.Loading
import CallAtlas.Proofs.Parallel.Pool
import CallAtlas.Proofs.Parallel.Task
import CallAtlas.Proofs.Program.Building
import CallAtlas.Proofs.Program.Callees
import CallAtlas.Proofs.Program.Contents
import CallAtlas.Proofs.Program.Dispatch
import CallAtlas.Proofs.Program.Isolation
import CallAtlas.Proofs.Program.MethodLookup
import CallAtlas.Proofs.Program.Multiplicity
import CallAtlas.Proofs.Program.Overriding
import CallAtlas.Proofs.Program.References
import CallAtlas.Proofs.Program.Specificity
import CallAtlas.Proofs.Program.Subtyping
import CallAtlas.Proofs.Report.Unused
import CallAtlas.Proofs.Result
import CallAtlas.Proofs.Run.Course
import CallAtlas.Proofs.Run.OneShot
import CallAtlas.Proofs.Run.Sharing
import CallAtlas.Proofs.Signal.Neighbours
import CallAtlas.Proofs.Source.Interchange
import CallAtlas.Proofs.StableSort
import CallAtlas.Proofs.Tables
import CallAtlas.Proofs.Text.Cut
import CallAtlas.Proofs.Text.ModifiedUtf8
import CallAtlas.Repeats
import CallAtlas.Report.Document
import CallAtlas.Report.Format
import CallAtlas.Report.Stats
import CallAtlas.Report.Unused
import CallAtlas.Report.Write
import CallAtlas.Run.Runner
import CallAtlas.Run.Save
import CallAtlas.Run.Session
import CallAtlas.Run.Stage
import CallAtlas.Settings
import CallAtlas.Signal.Graph
import CallAtlas.Signal.Rule
import CallAtlas.Source.Archive
import CallAtlas.Source.Bucket
import CallAtlas.Source.Directory
import CallAtlas.Source.Options
import CallAtlas.Source.Resolve
import CallAtlas.Table
import CallAtlas.Text.Category
import CallAtlas.Text.CodeRun
import CallAtlas.Text.Decimal
import CallAtlas.Text.Entity
import CallAtlas.Text.Fields
import CallAtlas.Text.Json
import CallAtlas.Text.Literal
import CallAtlas.Text.LowerCase
import CallAtlas.Text.ModifiedUtf8
import CallAtlas.Text.Number
import CallAtlas.Text.Printable
import CallAtlas.Text.Quoted
import CallAtlas.Text.Raw
import CallAtlas.Text.Replace
import CallAtlas.Text.Script
import CallAtlas.Text.Sorted
import CallAtlas.Text.Split
import CallAtlas.Text.Utf8
import CallAtlas.VariableFile
import CallAtlas.Zip.Archive
import CallAtlas.Zip.Checksum
import CallAtlas.Zip.Huffman
import CallAtlas.Zip.Inflate
import CallAtlas.Zip.Write
import CallAtlas.Proofs.Drawing.MethodFiles
import CallAtlas.Proofs.Program.Searches
import CallAtlas.Proofs.CallGraph.InsertionOrder
import CallAtlas.Proofs.Signal.Order
import CallAtlas.Proofs.Signal.Choices
import CallAtlas.Proofs.Signal.Canonical
import CallAtlas.Proofs.Drawing.ExternalClasses
import CallAtlas.Proofs.Drawing.ClassTraffic
import CallAtlas.Proofs.Facts.DescriptorGrammar
import CallAtlas.Proofs.Facts.MethodIdentity
import CallAtlas.Proofs.Text.Transcoding
import CallAtlas.Proofs.CallGraph.BlockCalls
import CallAtlas.Proofs.Bytecode.Truncation
import CallAtlas.Proofs.ClassFile.PoolIndices
import CallAtlas.Proofs.ClassFile.PassedOver
import CallAtlas.Proofs.Text.Entities
import CallAtlas.Proofs.Drawing.Identifiers
import CallAtlas.Proofs.Report.Owners
import CallAtlas.Proofs.Report.Statistics
import CallAtlas.Proofs.ClassFile.LineLookup
import CallAtlas.Proofs.Bytes.CursorStream
