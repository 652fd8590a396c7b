import Lisplet.Builtin
import Lisplet.Builtin.Apply
import Lisplet.CommandLine
import Lisplet.CommandLine.Flag
import Lisplet.Disk
import Lisplet.Disk.Tree
import Lisplet.Environment
import Lisplet.Environment.Listing
import Lisplet.Eval
import Lisplet.Event
import Lisplet.Fault
import Lisplet.Form
import Lisplet.Git.Fetch
import Lisplet.Git.Repository
import Lisplet.Git.Revision
import Lisplet.Git.Source
import Lisplet.History
import Lisplet.Host
import Lisplet.Interpreter
import Lisplet.Limits
import Lisplet.Machine
import Lisplet.Main
import Lisplet.Manifest
import Lisplet.Node
import Lisplet.Node.Read
import Lisplet.Number.Binary
import Lisplet.Number.Decimal
import Lisplet.Number.Integer
import Lisplet.Number.Layout
import Lisplet.Number.Numeral
import Lisplet.Number.Power
import Lisplet.Number.Separator
import Lisplet.Number.Shortest
import Lisplet.Path
import Lisplet.Program
import Lisplet.Proofs.Simulation
import Lisplet.Repl
import Lisplet.Text.Base64
import Lisplet.Text.Blank
import Lisplet.Text.Letter
import Lisplet.Text.Lines
import Lisplet.Text.Printable
import Lisplet.Text.Quoted
import Lisplet.Text.Range
import Lisplet.Text.Utf8
import Lisplet.Timestamp
import Lisplet.Token
import Lisplet.Token.Position
import Lisplet.Token.Scan
import Lisplet.Value
import Lisplet.Value.Arithmetic
import Lisplet.Value.Comparison
import Lisplet.Value.Numeric
import Lisplet.Value.Text
import Lisplet.Yaml.Cursor
import Lisplet.Yaml.Fault
import Lisplet.Yaml.Implicit
import Lisplet.Yaml.Property
import Lisplet.Yaml.Scalar.Block
import Lisplet.Yaml.Scalar.Gap
import Lisplet.Yaml.Scalar.Plain
import Lisplet.Yaml.Scalar.Quoted
import Lisplet.Yaml.Shape
import Lisplet.Yaml.Token
import Lisplet.Yaml.Token.Pending
import Lisplet.Yaml.Token.Queue
import Lisplet.Yaml.Tree
import Lisplet.Yaml.Tree.Read
import Lisplet.Proofs.Alike
import Lisplet.Proofs.Frames
import Lisplet.Proofs.Visibility
import Lisplet.Proofs.Incremental
import Lisplet.Proofs.Render
import Lisplet.Proofs.LongestLexeme
import Lisplet.Proofs.Repair
import Lisplet.Proofs.SmallStep
import Lisplet.Proofs.Throughout
import Lisplet.Proofs.Truncation
import Lisplet.Proofs.Reserved
import Lisplet.Proofs.InternalFault
import Lisplet.Proofs.OuterScope
import Lisplet.Proofs.Layers
import Lisplet.Proofs.Wrapping
import Lisplet.Proofs.Segments
import Lisplet.Proofs.TokenCount
import Lisplet.Proofs.ReadCap
import Lisplet.Proofs.OpenBranches
import Lisplet.Proofs.Continuation
import Lisplet.Proofs.FaultPosition
import Lisplet.Proofs.HistoryEntry
import Lisplet.Proofs.ReadCount
import Lisplet.Proofs.LastWriter
import Lisplet.Proofs.RepeatedRelease
import Lisplet.Proofs.LooseEquality
import Lisplet.Proofs.Summation
import Lisplet.Proofs.NumberLiteral
import Lisplet.Proofs.Trimming
import Lisplet.Proofs.Rounding
import Lisplet.Proofs.PlainDecimal
import Lisplet.Proofs.PrefixedInteger
import Lisplet.Proofs.ReadBack
import Lisplet.Proofs.Validation
import Lisplet.Proofs.TreeMeasures
import Lisplet.Proofs.TextOrder
import Lisplet.Proofs.Provenance
import Lisplet.Proofs.FunctionIdentity
