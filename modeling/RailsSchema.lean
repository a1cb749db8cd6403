import RailsSchema.Session
import RailsSchema.Main
import RailsSchema.Proofs.Value.Written
import RailsSchema.Proofs.Value.Numeral
import RailsSchema.Proofs.Text.Groups
import RailsSchema.Proofs.Literal.Keys
import RailsSchema.Proofs.Literal.Scalars
import RailsSchema.Proofs.Literal.Lists
import RailsSchema.Proofs.Entries
import RailsSchema.Proofs.Literal.RoundTrip
import RailsSchema.Proofs.Definition.Resolution
import RailsSchema.Proofs.Definition.PrimaryKey
import RailsSchema.Proofs.Text.Probes
import RailsSchema.Proofs.Statement.Probes
import RailsSchema.Proofs.Dump.Basic
import RailsSchema.Proofs.Dump.Values
import RailsSchema.Proofs.Dump.Options
import RailsSchema.Proofs.Dump.Statements
import RailsSchema.Proofs.Dump.Bodies
import RailsSchema.Proofs.Dump.Blocks
import RailsSchema.Proofs.Dump.Keys
import RailsSchema.Proofs.Dump.Reading
import RailsSchema.Proofs.Dump.RoundTrip
import RailsSchema.Proofs.Dump.Inert
import RailsSchema.Proofs.Dump.Comments
import RailsSchema.Proofs.Literal.Sound
import RailsSchema.Proofs.Literal.Filter
import RailsSchema.Proofs.Definition.Sound
import RailsSchema.Proofs.Statement.Concat
import RailsSchema.Proofs.Definition.Merge
import RailsSchema.Proofs.Json.Document
import RailsSchema.Proofs.Json.Text
import RailsSchema.Proofs.Json.Schema
import RailsSchema.Proofs.Json.Collapse
import RailsSchema.Proofs.CommandLine.Options
import RailsSchema.Proofs.CommandLine.Files
import RailsSchema.Proofs.CommandLine.Run
import RailsSchema.Proofs.Statement.Spans
import RailsSchema.Proofs.Statement.Lines
import RailsSchema.Proofs.Definition.Redefinition
import RailsSchema.Proofs.Offset.Cursor
import RailsSchema.Proofs.Offset.Search
import RailsSchema.Proofs.Offset.Group
import RailsSchema.Proofs.Text.Language
import RailsSchema.Proofs.Offset.Statement
import RailsSchema.Proofs.Offset.Table
import RailsSchema.Proofs.Offset.Literal
import RailsSchema.Proofs.Offset.Schema
import RailsSchema.Proofs.Literal.Truncation
import RailsSchema.Proofs.Literal.Size
import RailsSchema.Proofs.Literal.Spelling
import RailsSchema.Proofs.Literal.Locality
import RailsSchema.Proofs.Literal.Composition
import RailsSchema.Proofs.Literal.Brackets
import RailsSchema.Proofs.Offset.Value
import RailsSchema.Proofs.Offset.Progress
import RailsSchema.Proofs.Offset.Filter
import RailsSchema.Proofs.Text.LineBreaks
import RailsSchema.Proofs.Literal.Enclosed
import RailsSchema.Proofs.Literal.OneLine
import RailsSchema.Proofs.Definition.ImplicitId
import RailsSchema.Proofs.Definition.OneLine
import RailsSchema.Proofs.Report.Columns
import RailsSchema.Proofs.Report.LineBreaks
import RailsSchema.Proofs.Singular.Rules
import RailsSchema.Proofs.Singular.Spelling
import RailsSchema.Proofs.Singular.Idempotent
import RailsSchema.Proofs.Value.Rational
import RailsSchema.Proofs.Literal.Bare
import RailsSchema.Proofs.Literal.Placement
import RailsSchema.Proofs.Offset.Run
import RailsSchema.Proofs.Offset.Key
import RailsSchema.Proofs.Report.Limit
import RailsSchema.Proofs.Value.Truthiness
import RailsSchema.Proofs.Session
