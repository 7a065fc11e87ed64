import RecordLayout.Main
import RecordLayout.Proofs.Outcome
import RecordLayout.Proofs.Schema.Names
import RecordLayout.Proofs.Schema.References
import RecordLayout.Proofs.Schema.Cycle
import RecordLayout.Proofs.Schema.Coverage
import RecordLayout.Proofs.Schema.Resolution
import RecordLayout.Proofs.Schema.Lookup
import RecordLayout.Proofs.Grammar.Phrase
import RecordLayout.Proofs.Grammar.Combinators
import RecordLayout.Proofs.Grammar.Loops
import RecordLayout.Proofs.Grammar.Language
import RecordLayout.Proofs.Grammar.Expr
import RecordLayout.Proofs.Grammar.Condition
import RecordLayout.Proofs.Grammar.Types
import RecordLayout.Proofs.Grammar.Member
import RecordLayout.Proofs.Grammar.Declaration
import RecordLayout.Proofs.Grammar.Depth
import RecordLayout.Proofs.Cursor.Mirrors
import RecordLayout.Proofs.Cursor.Parsers
import RecordLayout.Proofs.Cursor.Comments
import RecordLayout.Proofs.Grammar.Description
import RecordLayout.Proofs.Pairing.Runs
import RecordLayout.Proofs.Pairing.Expr
import RecordLayout.Proofs.Pairing.Condition
import RecordLayout.Proofs.Pairing.Member
import RecordLayout.Proofs.Pairing.Declaration
import RecordLayout.Proofs.Pairing.Nesting
import RecordLayout.Proofs.Pairing.Cut
import RecordLayout.Proofs.Schema.Presence
import RecordLayout.Proofs.Token.Ends
import RecordLayout.Proofs.Expr.Occurrence
import RecordLayout.Proofs.Declaration.Demands
import RecordLayout.Proofs.Grammar.Stretches
import RecordLayout.Proofs.Grammar.Yields
import RecordLayout.Proofs.Expr.Readable
import RecordLayout.Proofs.Declaration.WellFormed
import RecordLayout.Proofs.Decimal.Word
import RecordLayout.Proofs.Token.Finds
import RecordLayout.Proofs.Expr.Signs
import RecordLayout.Proofs.Expr.Text
import RecordLayout.Proofs.Expr.ConditionText
import RecordLayout.Proofs.Expr.Reparse
import RecordLayout.Proofs.Expr.Height
import RecordLayout.Proofs.Position
import RecordLayout.Proofs.Token.Lexeme
import RecordLayout.Proofs.Token.Tiling
import RecordLayout.Proofs.Token.Layout
import RecordLayout.Proofs.Text.Pieces
import RecordLayout.Proofs.Text.Delimited
import RecordLayout.Proofs.Span.Located
import RecordLayout.Proofs.Span.Enclosed
import RecordLayout.Proofs.Span.Tracks
import RecordLayout.Proofs.Span.Parsers
import RecordLayout.Proofs.Span.Schema
import RecordLayout.Proofs.Span.Valid
import RecordLayout.Proofs.Joined.Scan
import RecordLayout.Proofs.Joined.Parse
import RecordLayout.Proofs.Span.Checks
import RecordLayout.Proofs.Joined.Compile
import RecordLayout.Proofs.Schema.Refusal
import RecordLayout.Proofs.Token.Listing
import RecordLayout.Proofs.Grammar.Alternatives
import RecordLayout.Proofs.Text.Lines
import RecordLayout.Proofs.Span.Underline
import RecordLayout.Proofs.Token.Numerals
import RecordLayout.Proofs.Token.Faults
import RecordLayout.Proofs.Expr.Evaluation
import RecordLayout.Proofs.Declaration.Size
import RecordLayout.Proofs.Position.Moves
import RecordLayout.Proofs.Writer.Strokes
import RecordLayout.Proofs.Writer.Rows
import RecordLayout.Proofs.Text.Unbroken
import RecordLayout.Proofs.Token.Stretch
import RecordLayout.Proofs.Schema.Nodes
import RecordLayout.Proofs.Schema.Outline
import RecordLayout.Proofs.Token.CharText
import RecordLayout.Proofs.Token.Slice
import RecordLayout.Proofs.Span.Faithful
import RecordLayout.Proofs.Grammar.Faults
import RecordLayout.Proofs.Span.Report
import RecordLayout.Proofs.Span.Wording
import RecordLayout.Proofs.Span.Renamed
import RecordLayout.Proofs.Position.Trailing
import RecordLayout.Proofs.Token.Readable
import RecordLayout.Proofs.Span.Literals
import RecordLayout.Proofs.CommandLine.Arguments
import RecordLayout.Proofs.CommandLine.Answers
import RecordLayout.Proofs.Writer.Levels
import RecordLayout.Proofs.Schema.Search
import RecordLayout.Proofs.Reader.Rules
