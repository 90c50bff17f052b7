import TableQuery.Access.Whitelist
import TableQuery.Cache.Agenda
import TableQuery.Cache.Basic
import TableQuery.Cache.Key
import TableQuery.Calendar.Moment
import TableQuery.Calendar.Reader
import TableQuery.Engine.Basic
import TableQuery.Engine.Config
import TableQuery.Engine.Rounds
import TableQuery.Error
import TableQuery.Execution.Context
import TableQuery.Execution.Fetching
import TableQuery.Execution.Plan
import TableQuery.Execution.Predicate
import TableQuery.Execution.Pushdown
import TableQuery.Execution.Relations
import TableQuery.Execution.Runner
import TableQuery.Execution.Shape
import TableQuery.Fault.Grammar
import TableQuery.Fault.Setup
import TableQuery.Fault.Stage
import TableQuery.Grammar.Expression
import TableQuery.Grammar.Literal
import TableQuery.Grammar.Quoted
import TableQuery.Grammar.Scan
import TableQuery.Grammar.Statement
import TableQuery.Json.Basic
import TableQuery.Json.Reader
import TableQuery.Json.Record
import TableQuery.Json.Writer
import TableQuery.Json.Written
import TableQuery.Number.Binary64
import TableQuery.Number.Decimal
import TableQuery.Number.Shortest
import TableQuery.Proofs.Access.AllowedTables
import TableQuery.Proofs.Access.Confinement
import TableQuery.Proofs.Access.Gate
import TableQuery.Proofs.Access.Noninterference
import TableQuery.Proofs.Batch.FetchCount
import TableQuery.Proofs.Batch.FirstTable
import TableQuery.Proofs.Batch.NestedLoop
import TableQuery.Proofs.Batch.OperandOrder
import TableQuery.Proofs.Batch.References
import TableQuery.Proofs.Batch.Requests
import TableQuery.Proofs.Batch.Skipping
import TableQuery.Proofs.Batch.Sources
import TableQuery.Proofs.Batch.Steps
import TableQuery.Proofs.Cache.Agendas
import TableQuery.Proofs.Cache.Consistency
import TableQuery.Proofs.Cache.Entries
import TableQuery.Proofs.Cache.Eviction
import TableQuery.Proofs.Cache.Invalidation
import TableQuery.Proofs.Cache.Keys
import TableQuery.Proofs.Cache.SingleFlight
import TableQuery.Proofs.Cache.Traffic
import TableQuery.Proofs.Calendar.DayBounds
import TableQuery.Proofs.Calendar.DayNumbers
import TableQuery.Proofs.Calendar.Reading
import TableQuery.Proofs.Engine.Transparency
import TableQuery.Proofs.Fetching.Outcomes
import TableQuery.Proofs.Fetching.Requests
import TableQuery.Proofs.Fetching.Transcripts
import TableQuery.Proofs.Grammar.Addressing
import TableQuery.Proofs.Grammar.Atoms
import TableQuery.Proofs.Grammar.Balance
import TableQuery.Proofs.Grammar.Brackets
import TableQuery.Proofs.Grammar.Closing
import TableQuery.Proofs.Grammar.Expressions
import TableQuery.Proofs.Grammar.Literals
import TableQuery.Proofs.Grammar.Nesting
import TableQuery.Proofs.Grammar.Offsets
import TableQuery.Proofs.Grammar.Parts
import TableQuery.Proofs.Grammar.Pieces
import TableQuery.Proofs.Grammar.Printable
import TableQuery.Proofs.Grammar.Quoting
import TableQuery.Proofs.Grammar.Segments
import TableQuery.Proofs.Grammar.Slicing
import TableQuery.Proofs.Grammar.Spellings
import TableQuery.Proofs.Grammar.Stages
import TableQuery.Proofs.Grammar.Statements
import TableQuery.Proofs.Grammar.Variants.Cuts
import TableQuery.Proofs.Grammar.Variants.Expressions
import TableQuery.Proofs.Grammar.Variants.Literals
import TableQuery.Proofs.Grammar.Variants.Stages
import TableQuery.Proofs.Grammar.Variants.Statements
import TableQuery.Proofs.Grammar.WellFormed
import TableQuery.Proofs.Grammar.Words
import TableQuery.Proofs.Json.Ascending
import TableQuery.Proofs.Json.Fields
import TableQuery.Proofs.Json.Parts
import TableQuery.Proofs.Json.Unambiguous
import TableQuery.Proofs.Json.Visible
import TableQuery.Proofs.Number.ReadBack
import TableQuery.Proofs.Number.Rounding
import TableQuery.Proofs.Number.ShortestWhole
import TableQuery.Proofs.Number.WholeDoubles
import TableQuery.Proofs.Plan.Sufficiency
import TableQuery.Proofs.Predicate.Conditions
import TableQuery.Proofs.Predicate.ListItems
import TableQuery.Proofs.Predicate.VariableModes
import TableQuery.Proofs.Pushdown.Agreement
import TableQuery.Proofs.Pushdown.Cells
import TableQuery.Proofs.Pushdown.Exactness
import TableQuery.Proofs.Pushdown.Rows
import TableQuery.Proofs.Pushdown.Statements
import TableQuery.Proofs.Query.Rearranging
import TableQuery.Proofs.Query.Records
import TableQuery.Proofs.Relations.Existence
import TableQuery.Proofs.Relations.Lookup
import TableQuery.Proofs.Relations.TupleEquality
import TableQuery.Proofs.Relations.TupleKeys
import TableQuery.Proofs.Schema.Built
import TableQuery.Proofs.Schema.Constraints
import TableQuery.Proofs.Stage.Binding
import TableQuery.Proofs.Stage.Grouping
import TableQuery.Proofs.Stage.Loading
import TableQuery.Proofs.Stage.Registration
import TableQuery.Proofs.Stage.Shapes
import TableQuery.Proofs.Stage.Sorting
import TableQuery.Proofs.Stage.SortingIntegers
import TableQuery.Proofs.Storage.FilterColumns
import TableQuery.Proofs.Storage.Frame
import TableQuery.Proofs.Storage.Merging
import TableQuery.Proofs.Storage.Regrouping
import TableQuery.Proofs.Text.ByteOrder
import TableQuery.Proofs.Text.Characters
import TableQuery.Proofs.Text.Slices
import TableQuery.Proofs.Text.Trim
import TableQuery.Proofs.Value.Deduplication
import TableQuery.Proofs.Value.FirstOccurrences
import TableQuery.Proofs.Value.Ordering
import TableQuery.Proofs.Value.WholeKeys
import TableQuery.Query.Document
import TableQuery.Query.Expression
import TableQuery.Query.Literal
import TableQuery.Query.Printer
import TableQuery.Query.Statement
import TableQuery.Schema.Catalog
import TableQuery.Schema.ColumnType
import TableQuery.Schema.Document
import TableQuery.Schema.Relation
import TableQuery.Schema.Table
import TableQuery.Stage.Arguments
import TableQuery.Stage.Builtin
import TableQuery.Stage.Registry
import TableQuery.Stage.Signature
import TableQuery.Storage.Connection
import TableQuery.Storage.Filter
import TableQuery.Storage.Source
import TableQuery.Text.Ascii
import TableQuery.Text.Blank
import TableQuery.Text.CaseTable
import TableQuery.Text.Lowercase
import TableQuery.Text.Search
import TableQuery.Value.Coerce
import TableQuery.Value.Key
import TableQuery.Value.Order
