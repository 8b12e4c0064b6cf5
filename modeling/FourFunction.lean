import FourFunction.Binary64.Arithmetic
import FourFunction.Binary64.Basic
import FourFunction.Binary64.Magnitude
import FourFunction.Calculator.Basic
import FourFunction.Calculator.Frame
import FourFunction.Decimal.Basic
import FourFunction.Decimal.Literal
import FourFunction.Decimal.Numeral
import FourFunction.Decimal.Scientific
import FourFunction.Decimal.Shortest
import FourFunction.Display
import FourFunction.Entry
import FourFunction.Expression.Error
import FourFunction.Expression.Evaluate
import FourFunction.Expression.Term
import FourFunction.Expression.Value
import FourFunction.Journal.Directive
import FourFunction.Journal.Filter
import FourFunction.Journal.Level
import FourFunction.Journal.Logged
import FourFunction.Journal.Pattern
import FourFunction.Journal.Record
import FourFunction.Keypad.Command
import FourFunction.Keypad.Layout
import FourFunction.Operator
import FourFunction.Proofs.Binary64.Nearest
import FourFunction.Proofs.Binary64.Overflow
import FourFunction.Proofs.Binary64.RoundsTo
import FourFunction.Proofs.Binary64.Signs
import FourFunction.Proofs.Binary64.Spread
import FourFunction.Proofs.Binary64.Whole
import FourFunction.Proofs.Calculator.Alphabet
import FourFunction.Proofs.Calculator.Continuation
import FourFunction.Proofs.Calculator.Correction
import FourFunction.Proofs.Calculator.Frame
import FourFunction.Proofs.Calculator.Operation
import FourFunction.Proofs.Calculator.Superfluous
import FourFunction.Proofs.Chaining
import FourFunction.Proofs.Decimal.Digits
import FourFunction.Proofs.Decimal.Fixed
import FourFunction.Proofs.Decimal.Grid
import FourFunction.Proofs.Decimal.Numeral
import FourFunction.Proofs.Decimal.Scientific
import FourFunction.Proofs.Decimal.Shortest
import FourFunction.Proofs.Decimal.Written
import FourFunction.Proofs.Display
import FourFunction.Proofs.DisplayOrder
import FourFunction.Proofs.Expression.Continuation
import FourFunction.Proofs.Expression.Factor
import FourFunction.Proofs.Expression.Grammar
import FourFunction.Proofs.Expression.Intermediate
import FourFunction.Proofs.Expression.Numeral
import FourFunction.Proofs.Expression.SignRuns
import FourFunction.Proofs.Expression.Term
import FourFunction.Proofs.Expression.Value
import FourFunction.Proofs.Journal
import FourFunction.Proofs.Journal.Directive
import FourFunction.Proofs.Journal.Filter
import FourFunction.Proofs.Journal.Pattern
import FourFunction.Proofs.Lossless
import FourFunction.Proofs.ReadBack
import FourFunction.Proofs.ShortestDecimal
import FourFunction.Proofs.Startup
import FourFunction.Proofs.Token.Listing
import FourFunction.Proofs.Token.Scan
import FourFunction.Proofs.Typed
import FourFunction.Proofs.WholeNumbers
import FourFunction.Rounding
import FourFunction.Startup
import FourFunction.Text
import FourFunction.Text.Alphanumeric
import FourFunction.Text.Blank
import FourFunction.Token
