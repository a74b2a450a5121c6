import SuiteOutline.Callee
import SuiteOutline.CommandLine.Arguments
import SuiteOutline.CommandLine.Invocation
import SuiteOutline.CommandLine.Run
import SuiteOutline.Document.Basic
import SuiteOutline.Document.Print
import SuiteOutline.Document.Renderable
import SuiteOutline.Document.Reserved
import SuiteOutline.Failure
import SuiteOutline.Files.Disk
import SuiteOutline.Files.Snapshot
import SuiteOutline.Files.Tree
import SuiteOutline.Json.Read
import SuiteOutline.Lookup
import SuiteOutline.Main
import SuiteOutline.Number.Basic
import SuiteOutline.Number.Binary64
import SuiteOutline.Number.Integer
import SuiteOutline.Number.Shortest
import SuiteOutline.Number.Whole
import SuiteOutline.Outline.Basic
import SuiteOutline.Outline.Finding
import SuiteOutline.Outline.Scenario
import SuiteOutline.Pool
import SuiteOutline.Proofs.Bare
import SuiteOutline.Proofs.Calls
import SuiteOutline.Proofs.ChainPrefix
import SuiteOutline.Proofs.Descent
import SuiteOutline.Proofs.Finding
import SuiteOutline.Proofs.InnerCalls
import SuiteOutline.Proofs.Offset
import SuiteOutline.Proofs.Options
import SuiteOutline.Proofs.Outcome
import SuiteOutline.Proofs.Place
import SuiteOutline.Proofs.Scenario
import SuiteOutline.Proofs.Sorting
import SuiteOutline.Proofs.Spans
import SuiteOutline.Proofs.Subtree
import SuiteOutline.Proofs.Walk
import SuiteOutline.Proofs.WellFormed
import SuiteOutline.Record
import SuiteOutline.Scope
import SuiteOutline.Service.Answer
import SuiteOutline.Service.Archive
import SuiteOutline.Service.Audit
import SuiteOutline.Service.Request
import SuiteOutline.Service.Session
import SuiteOutline.Settings.Basic
import SuiteOutline.Settings.EnvFile
import SuiteOutline.Settings.Read
import SuiteOutline.Sorted
import SuiteOutline.Store.Basic
import SuiteOutline.Store.Moment
import SuiteOutline.Store.Record
import SuiteOutline.Text.Affix
import SuiteOutline.Text.Blank
import SuiteOutline.Text.CodePoint
import SuiteOutline.Text.Decode
import SuiteOutline.Text.Digit
import SuiteOutline.Text.Position
import SuiteOutline.Text.Printable
import SuiteOutline.Text.Quoted
import SuiteOutline.Trace
import SuiteOutline.Tree.Kind
import SuiteOutline.Tree.Node
import SuiteOutline.Tree.Preorder
import SuiteOutline.Tree.Source
import SuiteOutline.Tree.Symbol
import SuiteOutline.Tree.Walk
import SuiteOutline.Usage
import SuiteOutline.Value.Basic
import SuiteOutline.Value.Escape
import SuiteOutline.Value.Literal
import SuiteOutline.Value.Materialize
import SuiteOutline.Vocabulary
import SuiteOutline.Proofs.Replica
import SuiteOutline.Proofs.Value
import SuiteOutline.Proofs.ReplicaValue
import SuiteOutline.Proofs.ReplicaCalls
import SuiteOutline.Proofs.ReplicaOutline
import SuiteOutline.Proofs.Locality
import SuiteOutline.Proofs.Comments
import SuiteOutline.Proofs.Translation
import SuiteOutline.Proofs.Escape
import SuiteOutline.Proofs.Denotes
import SuiteOutline.Proofs.Materialized
import SuiteOutline.Proofs.Unwritable
import SuiteOutline.Proofs.Readable
import SuiteOutline.Proofs.Misnamed
import SuiteOutline.Proofs.PoolRun
import SuiteOutline.Proofs.Schedule
import SuiteOutline.Proofs.Audit
import SuiteOutline.Proofs.Listing
import SuiteOutline.Proofs.SameFile
import SuiteOutline.Proofs.Answered
import SuiteOutline.Proofs.Renamed
import SuiteOutline.Proofs.Surfaces
import SuiteOutline.Proofs.Union
import SuiteOutline.Proofs.Linear
import SuiteOutline.Proofs.Apart
import SuiteOutline.Proofs.Lookup
import SuiteOutline.Proofs.Tests
import SuiteOutline.Proofs.Hooks
import SuiteOutline.Proofs.Factories
import SuiteOutline.Proofs.Site
import SuiteOutline.Proofs.Purity
import SuiteOutline.Proofs.Parentheses
import SuiteOutline.Proofs.Position
import SuiteOutline.Proofs.SyntaxErrors
import SuiteOutline.Proofs.UsageText
import SuiteOutline.Proofs.Anchor
import SuiteOutline.Proofs.Encoded
import SuiteOutline.Proofs.Numeral
import SuiteOutline.Proofs.Rounding
import SuiteOutline.Proofs.Utf16
import SuiteOutline.Proofs.Cooked
import SuiteOutline.Proofs.NumberLiteral
import SuiteOutline.Proofs.Traversal
import SuiteOutline.Proofs.Utf8
import SuiteOutline.Proofs.Decodable
import SuiteOutline.Proofs.Limits
import SuiteOutline.Proofs.Parts
import SuiteOutline.Proofs.ArrayItems
import SuiteOutline.Proofs.Template
