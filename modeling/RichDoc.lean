import RichDoc.CommandLine.Arguments
import RichDoc.CommandLine.Run
import RichDoc.CommandLine.Store
import RichDoc.CommandLine.Version
import RichDoc.Config.Basic
import RichDoc.Config.Path
import RichDoc.Decimal.Layout
import RichDoc.Decimal.Magnitude
import RichDoc.Decimal.Numeral
import RichDoc.Decimal.Power
import RichDoc.Decimal.Shortest
import RichDoc.Document.Attributes
import RichDoc.Document.Element
import RichDoc.Document.Kind
import RichDoc.Document.Node
import RichDoc.Document.Written
import RichDoc.Export.Assemble
import RichDoc.Export.Block
import RichDoc.Export.Collect
import RichDoc.Export.Context
import RichDoc.Export.Document
import RichDoc.Export.Leaf
import RichDoc.Export.Metadata
import RichDoc.Export.Prepared
import RichDoc.Export.Settings
import RichDoc.Export.Table
import RichDoc.Json.Error
import RichDoc.Json.Printer
import RichDoc.Json.Reader
import RichDoc.Json.Token
import RichDoc.Json.Value
import RichDoc.Keyed
import RichDoc.Main
import RichDoc.Mark.Container
import RichDoc.Mark.Priority
import RichDoc.Mark.Reference
import RichDoc.Mark.Registry
import RichDoc.Pandoc.Ast
import RichDoc.Pandoc.Words
import RichDoc.Pandoc.Written
import RichDoc.Proofs.CommandLine.AllOrNothing
import RichDoc.Proofs.CommandLine.Stored
import RichDoc.Proofs.Config.ReadBack
import RichDoc.Proofs.Decimal.ReadBack
import RichDoc.Proofs.Document.Grammar
import RichDoc.Proofs.Document.ReadBack
import RichDoc.Proofs.Export.Acceptance
import RichDoc.Proofs.Export.AnyPath
import RichDoc.Proofs.Export.Assembly
import RichDoc.Proofs.Export.Checked
import RichDoc.Proofs.Export.Citations
import RichDoc.Proofs.Export.Collection
import RichDoc.Proofs.Export.Composed
import RichDoc.Proofs.Export.Converted
import RichDoc.Proofs.Export.ErrorPath
import RichDoc.Proofs.Export.Fidelity
import RichDoc.Proofs.Export.InRange
import RichDoc.Proofs.Export.InTurn
import RichDoc.Proofs.Export.Inventory
import RichDoc.Proofs.Export.Layout
import RichDoc.Proofs.Export.Neighbours
import RichDoc.Proofs.Export.Nesting
import RichDoc.Proofs.Export.Numbering
import RichDoc.Proofs.Export.Objects
import RichDoc.Proofs.Export.Row
import RichDoc.Proofs.Export.Runs
import RichDoc.Proofs.Export.Sections
import RichDoc.Proofs.Export.Session
import RichDoc.Proofs.Export.Spans
import RichDoc.Proofs.Export.SplitText
import RichDoc.Proofs.Export.Stack
import RichDoc.Proofs.Export.Steady
import RichDoc.Proofs.Export.Verdict
import RichDoc.Proofs.Json.Compact
import RichDoc.Proofs.Json.Indented
import RichDoc.Proofs.Json.ReadBack
import RichDoc.Proofs.Mark.Identity
import RichDoc.Proofs.Mark.Linear
import RichDoc.Proofs.Mark.Registered
import RichDoc.Proofs.Pandoc.Cites
import RichDoc.Proofs.Pandoc.Injective
import RichDoc.Proofs.Pandoc.Widths
import RichDoc.Proofs.Pandoc.Words
import RichDoc.Proofs.Range.AnyOrder
import RichDoc.Proofs.Range.Budget
import RichDoc.Proofs.Range.Coverage
import RichDoc.Proofs.Range.Divided
import RichDoc.Proofs.Range.Emptied
import RichDoc.Proofs.Range.Ends
import RichDoc.Proofs.Range.Indexed
import RichDoc.Proofs.Range.Joints
import RichDoc.Proofs.Range.Laminar
import RichDoc.Proofs.Range.Locality
import RichDoc.Proofs.Range.Opening
import RichDoc.Proofs.Range.Order
import RichDoc.Proofs.Range.Turn
import RichDoc.Proofs.Range.Untouched
import RichDoc.Proofs.Range.Whole
import RichDoc.Proofs.Table.Indexed
import RichDoc.Proofs.Table.Places
import RichDoc.Proofs.Table.Votes
import RichDoc.Proofs.Toml.Lines
import RichDoc.Proofs.Toml.Quoted
import RichDoc.Range.Basic
import RichDoc.Range.Untangle
import RichDoc.Table.Grid
import RichDoc.Table.Width
import RichDoc.Text.Alphanumeric
import RichDoc.Text.Blank
import RichDoc.Text.CodeRange
import RichDoc.Text.Printable
import RichDoc.Text.Quoted
import RichDoc.Toml.Printer
import RichDoc.Toml.Reader
import RichDoc.Toml.Scalar
import RichDoc.Toml.Value
