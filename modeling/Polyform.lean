import Polyform.Decimal.Basic
import Polyform.Binary64.Basic
import Polyform.Binary64.Shortest
import Polyform.Binary64.Text
import Polyform.Grid
import Polyform.Text.Printable
import Polyform.Text.Blank
import Polyform.Text.Quoted
import Polyform.Datum.Basic
import Polyform.Datum.Operand
import Polyform.Fault
import Polyform.Datum.Check
import Polyform.Expr.Basic
import Polyform.Expr.Build
import Polyform.Expr.Dispatch
import Polyform.Text.Parens
import Polyform.Decimal.Numeral
import Polyform.Expr.Regroup
import Polyform.Expr.Parse
import Polyform.Recipe
import Polyform.Session
import Polyform.Main
import Polyform.Expr.Match
import Polyform.Proofs.Binary64.Value
import Polyform.Proofs.Binary64.Unpack
import Polyform.Proofs.Binary64.Rounding
import Polyform.Proofs.Binary64.Arithmetic
import Polyform.Proofs.Binary64.Conversion
import Polyform.Proofs.Decimal.Plain
import Polyform.Proofs.Binary64.ReadBack
import Polyform.Proofs.Binary64.Spacing
import Polyform.Proofs.Binary64.Search
import Polyform.Proofs.Grid.Truncate
import Polyform.Proofs.Text.Balanced
import Polyform.Proofs.Expr.Readable
import Polyform.Proofs.Expr.Sameness
import Polyform.Proofs.Expr.Closure
import Polyform.Proofs.Expr.Meaning
import Polyform.Proofs.Text.Pieces
import Polyform.Proofs.Expr.Grammar
import Polyform.Proofs.Expr.Bracketing
import Polyform.Proofs.Expr.Reading
import Polyform.Proofs.Expr.Normal
import Polyform.Proofs.Expr.Checked
import Polyform.Proofs.Expr.Identity
import Polyform.Proofs.Text.Enclosing
import Polyform.Proofs.Binary64.Order
import Polyform.Proofs.Grid.FixedPoints
import Polyform.Proofs.Expr.ConstText
import Polyform.Proofs.Expr.Grammar.Completeness
import Polyform.Proofs.Expr.Grammar.Language
import Polyform.Proofs.Expr.Simplification
import Polyform.Proofs.Expr.Termination
