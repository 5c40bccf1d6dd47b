import ExprLexer.Position
import ExprLexer.Text.Lines
import ExprLexer.Text.Quoted
import ExprLexer.Text.WhiteSpace
import ExprLexer.Number.Literal
import ExprLexer.Token.Basic
import ExprLexer.Lexeme
import ExprLexer.Lexer
import ExprLexer.Excerpt
import ExprLexer.SourceFile
import ExprLexer.CommandLine
import ExprLexer.Main
import ExprLexer.Proofs.Positions
import ExprLexer.Proofs.LongestMatch
import ExprLexer.Proofs.Tiling
import ExprLexer.Proofs.RoundTrip
import ExprLexer.Proofs.Nearest
import ExprLexer.Proofs.Stream
import ExprLexer.Proofs.Appending
import ExprLexer.Proofs.Restart
import ExprLexer.Proofs.Comments
import ExprLexer.Proofs.LineEndings
import ExprLexer.Proofs.Reports
import ExprLexer.Proofs.Events
import ExprLexer.Proofs.Caret
import ExprLexer.Proofs.Listing
import ExprLexer.Proofs.Aborts
import ExprLexer.Proofs.ReadBack
import ExprLexer.Proofs.Messages
import ExprLexer.Proofs.Tracking
import ExprLexer.Proofs.ByteLines
import ExprLexer.Proofs.Rows
import ExprLexer.Proofs.Ordering
import ExprLexer.Proofs.Literals
import ExprLexer.Proofs.Progress
