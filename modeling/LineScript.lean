import LineScript.CommandLine
import LineScript.CommandLine.Folder
import LineScript.CommandLine.Options
import LineScript.Decimal.Basic
import LineScript.Decimal.Format
import LineScript.Decimal.Magnitude
import LineScript.Decimal.Shortest
import LineScript.Environment
import LineScript.Event
import LineScript.Fault
import LineScript.Fault.Category
import LineScript.Interpreter
import LineScript.Line.Defect
import LineScript.Line.Phrase
import LineScript.Line.Quote
import LineScript.Line.Segment
import LineScript.Line.Tokens
import LineScript.Machine.Basic
import LineScript.Machine.Expression
import LineScript.Machine.Statement
import LineScript.Main
import LineScript.Program
import LineScript.Reading.Cursor
import LineScript.Reading.Expression
import LineScript.Reading.Parse
import LineScript.Reading.Statement
import LineScript.Sample
import LineScript.Scan
import LineScript.Session
import LineScript.Session.Command
import LineScript.Span
import LineScript.Text.Alphabetic
import LineScript.Text.Blank
import LineScript.Text.Numeric
import LineScript.Text.Pieces
import LineScript.Text.Ranges
import LineScript.Token
import LineScript.Value
import LineScript.Value.Comparison
import LineScript.Vocabulary
import LineScript.Proofs.Grammar
import LineScript.Proofs.Grammar.Yields
import LineScript.Proofs.Grammar.Sound
import LineScript.Proofs.Grammar.Complete
import LineScript.Proofs.Grammar.Parallel
import LineScript.Proofs.Grammar.Derivation
import LineScript.Proofs.Grammar.Exact
import LineScript.Proofs.Grammar.ViablePrefix
import LineScript.Proofs.Line.Slices
import LineScript.Proofs.Machine.Evaluation
import LineScript.Proofs.Machine.Strictness
import LineScript.Proofs.Machine.Frames
import LineScript.Proofs.Machine.Snapshot
import LineScript.Proofs.Machine.Renaming
import LineScript.Proofs.Machine.Steps
import LineScript.Proofs.Machine.Limits
import LineScript.Proofs.Machine.Lines
import LineScript.Proofs.Rendering
import LineScript.Proofs.Rendering.Derives
import LineScript.Proofs.Rendering.Quotations
import LineScript.Proofs.Rendering.Segments
import LineScript.Proofs.Rendering.Scan
import LineScript.Proofs.Machine.Positions
import LineScript.Proofs.Rendering.Layouts
import LineScript.Proofs.Rendering.RoundTrip
import LineScript.Proofs.Scan.Lossless
import LineScript.Proofs.Interpreter.Edits
import LineScript.Proofs.Session.Accounts
import LineScript.Proofs.Reading.Moves
import LineScript.Proofs.Program.Names
import LineScript.Proofs.Program.Nodes
import LineScript.Proofs.Grammar.Spans
import LineScript.Proofs.Machine.Sites
import LineScript.Proofs.Interpreter.Locations
import LineScript.Proofs.Scan.Lines
import LineScript.Proofs.Program.Height
import LineScript.Proofs.Reading.Height
import LineScript.Proofs.Reading.Composed
import LineScript.Proofs.Reading.Ends
import LineScript.Proofs.Reading.Indexed
import LineScript.Proofs.Reading.Indexed.Follows
import LineScript.Proofs.Reading.Indexed.Safe
import LineScript.Proofs.Reading.Locality
import LineScript.Proofs.Grammar.Nesting
import LineScript.Proofs.Value.Equality
import LineScript.Proofs.Machine.Indifference
import LineScript.Proofs.Number.Order
import LineScript.Proofs.Number.Parts
import LineScript.Proofs.Number.Exact
import LineScript.Proofs.Decimal.Exact
import LineScript.Proofs.Decimal.Literal
import LineScript.Proofs.Decimal.RoundTrip
import LineScript.Proofs.Number.Value
import LineScript.Proofs.Machine.Unrolling
import LineScript.Proofs.Machine.Undefined
import LineScript.Proofs.Value.Order
import LineScript.Proofs.Line.Places
import LineScript.Proofs.Line.Origins
import LineScript.Proofs.Line.Items
import LineScript.Proofs.Line.Stretches
import LineScript.Proofs.Line.Agreement
import LineScript.Proofs.Reading.Operands
import LineScript.Proofs.Scan.Origins
import LineScript.Proofs.Scan.WellFormed
import LineScript.Proofs.Scan.Strings
import LineScript.Proofs.Scan.Vocabularies
import LineScript.Proofs.Environment.History
import LineScript.Proofs.Line.Zones
import LineScript.Proofs.Scan.Spacing
import LineScript.Proofs.Session.Endings
