import Reckon.Binary.Basic
import Reckon.Binary.Fraction
import Reckon.Binary.Power
import Reckon.Binary.Read
import Reckon.Binary.Stored
import Reckon.Calculator
import Reckon.CommandLine.Command
import Reckon.CommandLine.Flag
import Reckon.CommandLine.Run
import Reckon.Decimal.Basic
import Reckon.Decimal.Layout
import Reckon.Decimal.Shortest
import Reckon.Double.Basic
import Reckon.Double.Power
import Reckon.Double.Text
import Reckon.Duration
import Reckon.Expr.Basic
import Reckon.Expr.Evaluate
import Reckon.Expr.Outline
import Reckon.Expr.Stored
import Reckon.Failure
import Reckon.Format.Binary
import Reckon.Format.Double
import Reckon.Format.Spec
import Reckon.Format.Template
import Reckon.Json.Number
import Reckon.Json.Object
import Reckon.Json.Text
import Reckon.Lexer
import Reckon.Main
import Reckon.Numeral
import Reckon.Parser
import Reckon.Rounding
import Reckon.Service.Address
import Reckon.Service.Basic
import Reckon.Service.Http
import Reckon.Service.Socket
import Reckon.Session
import Reckon.Settings.Basic
import Reckon.Settings.Environment
import Reckon.Settings.Field
import Reckon.Settings.Load
import Reckon.Settings.Toml
import Reckon.Settings.Yaml
import Reckon.Terminal.LineEditor
import Reckon.Terminal.Screen
import Reckon.Text.Blank
import Reckon.Text.Bytes
import Reckon.Text.Fold
import Reckon.Text.Integer
import Reckon.Text.Lines
import Reckon.Text.LowerCase
import Reckon.Text.Printable
import Reckon.Text.Quoted
import Reckon.Text.Utf8
import Reckon.Text.Width
import Reckon.Token
import Reckon.Toml.Document
import Reckon.Toml.Value
import Reckon.Yaml.Cursor
import Reckon.Yaml.Meaning
import Reckon.Yaml.Node
import Reckon.Yaml.Scalar
import Reckon.Yaml.Token
import Reckon.Text.Boundary
import Reckon.Text.Cursor
import Reckon.Proofs.Parser.Grammar
import Reckon.Proofs.Parser.Run
import Reckon.Proofs.Parser.Account
import Reckon.Proofs.Parser.Balance
import Reckon.Proofs.Parser.Completeness
import Reckon.Proofs.Parser.Recognition
import Reckon.Proofs.Parser.Viability
import Reckon.Proofs.Parser.Nesting
import Reckon.Proofs.Lexer.Literal
import Reckon.Proofs.Lexer.Alphabet
import Reckon.Proofs.Lexer.Movement
import Reckon.Proofs.Lexer.LookAhead
import Reckon.Proofs.Lexer.Lexemes
import Reckon.Proofs.Lexer.Tokenize
import Reckon.Proofs.Lexer.Blanking
import Reckon.Proofs.Lexer.Joining
import Reckon.Proofs.Expr.Spelled
import Reckon.Proofs.Expr.RoundTrip
import Reckon.Proofs.Parser.ErrorPlace
import Reckon.Proofs.Parser.Matching
import Reckon.Proofs.Failure.Place
import Reckon.Proofs.Calculator.Outcome
import Reckon.Proofs.Rounding.Nearest
import Reckon.Proofs.Binary.Rounds
import Reckon.Proofs.Binary.Exact
import Reckon.Proofs.Binary.Literal
import Reckon.Proofs.Visit
import Reckon.Proofs.Expr.PostOrder
import Reckon.Proofs.Expr.Paths
import Reckon.Proofs.Expr.Walk
import Reckon.Proofs.Expr.Exact
import Reckon.Proofs.Binary.IntegerPower
import Reckon.Proofs.Double.Undefined
import Reckon.Proofs.Binary.Undefined
import Reckon.Proofs.Expr.FirstUndefined
import Reckon.Proofs.Binary.Precision
import Reckon.Proofs.Expr.Precision
import Reckon.Proofs.Lexer.Reader
import Reckon.Proofs.Text.Trimming
import Reckon.Proofs.Session.Leaving
import Reckon.Proofs.Format.Location
import Reckon.Proofs.Session.LineByLine
import Reckon.Proofs.Session.Handover
import Reckon.Proofs.CommandLine.Batch
import Reckon.Proofs.Terminal.History
import Reckon.Proofs.Json.Spelling
import Reckon.Proofs.Service.Replies
import Reckon.Proofs.Binary.PowerSign
import Reckon.Proofs.Binary.Multiplications
import Reckon.Proofs.Binary.RoundingError
import Reckon.Proofs.Binary.PowerRange
import Reckon.Proofs.Settings.Layers
import Reckon.Proofs.Settings.Documents
import Reckon.Proofs.Settings.Environment
import Reckon.Proofs.CommandLine.Precedence
import Reckon.Proofs.Binary.PowerError
import Reckon.Proofs.Binary.PowerExact
import Reckon.Proofs.Parser.Activation
import Reckon.Proofs.Parser.Progress
import Reckon.Proofs.Parser.Depth
import Reckon.Proofs.Service.Bodies
import Reckon.Proofs.Settings.Independence
import Reckon.Proofs.Format.Pieces
import Reckon.Proofs.Format.LeftOver
import Reckon.Proofs.Settings.Accepted
