import TableExport.Archive.Basic
import TableExport.Archive.Checksum
import TableExport.Archive.Inflate
import TableExport.Batch.Basic
import TableExport.Batch.Error
import TableExport.Batch.Output
import TableExport.Batch.Summary
import TableExport.Calendar
import TableExport.Cell.Basic
import TableExport.Cell.Coercion
import TableExport.Cell.Kind
import TableExport.Cell.NumberFormat
import TableExport.Cell.Serial
import TableExport.Cli.Arguments
import TableExport.Cli.Run
import TableExport.Code.Declaration
import TableExport.Code.Emission
import TableExport.Config
import TableExport.Entries
import TableExport.Files.Path
import TableExport.Files.Search
import TableExport.Files.Wildcard
import TableExport.Files.Workspace
import TableExport.Json.Basic
import TableExport.Json.Compare
import TableExport.Json.Printer
import TableExport.Json.Reader
import TableExport.Main
import TableExport.Markup.Attribute
import TableExport.Markup.Basic
import TableExport.Markup.Reader
import TableExport.Markup.Reference
import TableExport.Markup.Text
import TableExport.Numeric.Binary64
import TableExport.Numeric.Bounds
import TableExport.Numeric.Literal
import TableExport.Numeric.Shortest
import TableExport.Pattern.Basic
import TableExport.Pattern.Reader
import TableExport.Proofs.Archive.Packed
import TableExport.Proofs.Batch.Again
import TableExport.Proofs.Batch.Alone
import TableExport.Proofs.Batch.CodeFiles
import TableExport.Proofs.Batch.Dates
import TableExport.Proofs.Calendar
import TableExport.Proofs.Cell.Days
import TableExport.Proofs.Cell.Integers
import TableExport.Proofs.Cell.NumberFormats
import TableExport.Proofs.Cell.Times
import TableExport.Proofs.Code.Closure
import TableExport.Proofs.Code.DefinitionNames
import TableExport.Proofs.Code.Listing
import TableExport.Proofs.Code.NestedNames
import TableExport.Proofs.Code.PostOrder
import TableExport.Proofs.Entries
import TableExport.Proofs.Json.Size
import TableExport.Proofs.Markup.Attributes
import TableExport.Proofs.Markup.Displayed
import TableExport.Proofs.Markup.Elements
import TableExport.Proofs.Markup.References
import TableExport.Proofs.Numeric.Literals
import TableExport.Proofs.Numeric.Rounding
import TableExport.Proofs.Reference
import TableExport.Proofs.Results
import TableExport.Proofs.Schema.Addresses
import TableExport.Proofs.Schema.Bounds
import TableExport.Proofs.Schema.Building
import TableExport.Proofs.Schema.Checked
import TableExport.Proofs.Schema.Children
import TableExport.Proofs.Schema.Circles
import TableExport.Proofs.Schema.Declared
import TableExport.Proofs.Schema.Distinct
import TableExport.Proofs.Schema.History
import TableExport.Proofs.Schema.Independence
import TableExport.Proofs.Schema.InlinedMeaning
import TableExport.Proofs.Schema.Inlining
import TableExport.Proofs.Schema.Meaning
import TableExport.Proofs.Schema.Outline
import TableExport.Proofs.Schema.Places
import TableExport.Proofs.Schema.Pointers
import TableExport.Proofs.Schema.Queries
import TableExport.Proofs.Schema.References
import TableExport.Proofs.Schema.Resolving
import TableExport.Proofs.Schema.Sessions
import TableExport.Proofs.Schema.Shapes
import TableExport.Proofs.Schema.TypeNames
import TableExport.Proofs.Schema.Walks
import TableExport.Proofs.Sheet.Contents
import TableExport.Proofs.Sheet.Pushes
import TableExport.Proofs.Sheet.Region
import TableExport.Proofs.Table.Authored
import TableExport.Proofs.Table.Beside
import TableExport.Proofs.Table.BlankRows
import TableExport.Proofs.Table.Boundaries
import TableExport.Proofs.Table.Coerced
import TableExport.Proofs.Table.ColumnOrder
import TableExport.Proofs.Table.Columns
import TableExport.Proofs.Table.Comments
import TableExport.Proofs.Table.Continuation
import TableExport.Proofs.Table.FieldOrder
import TableExport.Proofs.Table.Header
import TableExport.Proofs.Table.HeaderImage
import TableExport.Proofs.Table.Keys
import TableExport.Proofs.Table.Levels
import TableExport.Proofs.Table.Places
import TableExport.Proofs.Table.Provenance
import TableExport.Proofs.Table.Ranges
import TableExport.Proofs.Table.Reading
import TableExport.Proofs.Table.RoundTrip
import TableExport.Proofs.Table.Shape
import TableExport.Proofs.Table.Spans
import TableExport.Proofs.Text.Lines
import TableExport.Proofs.Validation.Extracted
import TableExport.Proofs.Validation.Paths
import TableExport.Proofs.Validation.Typing
import TableExport.Proofs.Workbook.Books
import TableExport.Proofs.Workbook.Written
import TableExport.Reference
import TableExport.Schema.Documents
import TableExport.Schema.Error
import TableExport.Schema.Folder
import TableExport.Schema.Pointer
import TableExport.Schema.Reference
import TableExport.Schema.Resolution
import TableExport.Schema.Shape
import TableExport.Schema.Typing
import TableExport.Sheet
import TableExport.Table.Error
import TableExport.Table.Extraction
import TableExport.Table.Layout
import TableExport.Text.Blank
import TableExport.Text.Lines
import TableExport.Text.Upper
import TableExport.TypeTree
import TableExport.Validation.Check
import TableExport.Validation.RowSet
import TableExport.Validation.Violation
import TableExport.Validation.WellFormed
import TableExport.Workbook.Basic
import TableExport.Workbook.Contents
import TableExport.Workbook.Error
import TableExport.Workbook.Part
import TableExport.Workbook.Styles
import TableExport.Workbook.Worksheet
