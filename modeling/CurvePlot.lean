import CurvePlot.Main
import CurvePlot.Session
import CurvePlot.Proofs.Program.Evaluation
import CurvePlot.Proofs.Expr.Grammar
import CurvePlot.Proofs.Expr.Outcome
import CurvePlot.Proofs.Expr.Prefixes
import CurvePlot.Proofs.Expr.Language
import CurvePlot.Proofs.Sampler.Points
import CurvePlot.Proofs.Binary64.Expansion
import CurvePlot.Proofs.Decimal.Positional
import CurvePlot.Proofs.Expr.Printed
import CurvePlot.Proofs.Expr.RoundTrip
import CurvePlot.Proofs.Program.NormalForm
import CurvePlot.Proofs.Sampler.Agreement
import CurvePlot.Proofs.Decimal.Unsigned
import CurvePlot.Proofs.Expr.Reread
import CurvePlot.Proofs.Binary64.Rounding
import CurvePlot.Proofs.Binary64.Value
import CurvePlot.Proofs.Binary64.Arithmetic
import CurvePlot.Proofs.Sampler.Positions
import CurvePlot.Proofs.Sampler.Finiteness
import CurvePlot.Proofs.Decimal.Parts
import CurvePlot.Proofs.Token.Lexemes
import CurvePlot.Proofs.Token.Cutting
import CurvePlot.Proofs.Expr.Causes
import CurvePlot.Proofs.Graph.Validity
import CurvePlot.Proofs.Graph.Wholeness
import CurvePlot.Proofs.CommandLine.Agreement
import CurvePlot.Proofs.CommandLine.Reading
import CurvePlot.Proofs.Program.StackHeight
import CurvePlot.Proofs.Expr.Shape
import CurvePlot.Proofs.Expr.Diagnosis
import CurvePlot.Proofs.Json.Lexemes
import CurvePlot.Proofs.Json.Numerals
import CurvePlot.Proofs.Json.Reading
import CurvePlot.Proofs.Graph.RoundTrip
import CurvePlot.Proofs.Binary64.Order
import CurvePlot.Proofs.Sampler.Density
import CurvePlot.Proofs.Expr.Nesting
import CurvePlot.Proofs.Expr.Balance
import CurvePlot.Proofs.Token.Positions
import CurvePlot.Proofs.Expr.Descent.Rules
import CurvePlot.Proofs.Expr.Descent.Settles
import CurvePlot.Proofs.Expr.Descent.Reading
import CurvePlot.Proofs.Expr.Descent.Counting
import CurvePlot.Proofs.Program.Checked
import CurvePlot.Proofs.Sampler.Checked
import CurvePlot.Proofs.Graph.Checked
import CurvePlot.Proofs.Expr.Permanence
import CurvePlot.Proofs.Token.Spacing
import CurvePlot.Proofs.Expr.Spacing
import CurvePlot.Proofs.Token.Joining
import CurvePlot.Proofs.Program.Forests
import CurvePlot.Proofs.Program.Decoding
import CurvePlot.Proofs.Program.Respelling
import CurvePlot.Proofs.Sampler.PlottingOrder
import CurvePlot.Proofs.Binary64.Monotone
import CurvePlot.Proofs.Sampler.Widening
import CurvePlot.Proofs.Expr.Readability
import CurvePlot.Proofs.Json.Values
import CurvePlot.Proofs.Json.Texts
import CurvePlot.Proofs.Json.Records
import CurvePlot.Proofs.Graph.Decoding
