import Schoolbook.Canonical.Json
import Schoolbook.Canonical.Sorting
import Schoolbook.Diagnosis.Report
import Schoolbook.Evaluation
import Schoolbook.Expr.Json
import Schoolbook.Json.Reader
import Schoolbook.Json.Writer
import Schoolbook.Number.Order
import Schoolbook.Polynomial.Expansion
import Schoolbook.Polynomial.Json
import Schoolbook.Polynomial.Text
import Schoolbook.Presentation.Json
import Schoolbook.Proofs.Number.Exact
import Schoolbook.Proofs.Number.Order
import Schoolbook.Proofs.Canonical.Rearrangement
import Schoolbook.Proofs.Expr.Nodes
import Schoolbook.Proofs.Comparison
import Schoolbook.Proofs.Polynomial.Monomial
import Schoolbook.Proofs.Polynomial.NormalForm
import Schoolbook.Proofs.Polynomial.Arithmetic
import Schoolbook.Proofs.Polynomial.Reduction
import Schoolbook.Proofs.Number.Power
import Schoolbook.Proofs.Evaluation.Exactness
import Schoolbook.Proofs.Double.Arithmetic
import Schoolbook.Proofs.Number.Double
import Schoolbook.Proofs.Number.Faults
import Schoolbook.Proofs.Expr.Spans
import Schoolbook.Proofs.Blame
import Schoolbook.Proofs.Canonical.Sorting
import Schoolbook.Proofs.Malformed
import Schoolbook.Proofs.Polynomial.Normalized
import Schoolbook.Proofs.Number.TotalOrder
import Schoolbook.Proofs.Canonical.Meaning
import Schoolbook.Proofs.Canonical.NormalForm
import Schoolbook.Proofs.Stripping
import Schoolbook.Proofs.Number.Wide
import Schoolbook.Proofs.Polynomial.Constants
import Schoolbook.Proofs.Evaluation.Agreement
import Schoolbook.Proofs.Reading.Script
import Schoolbook.Proofs.Reading.Reader
import Schoolbook.Proofs.Reading.Spelling
import Schoolbook.Proofs.Reading.Plain
import Schoolbook.Proofs.Reading.Latex
import Schoolbook.Proofs.Polynomial.Overflow
import Schoolbook.Proofs.Finiteness
import Schoolbook.Proofs.Number.Narrowing
import Schoolbook.Proofs.Number.Root
import Schoolbook.Proofs.Evaluation.Completeness
import Schoolbook.Proofs.Json.Number
import Schoolbook.Proofs.Json.Polynomial
import Schoolbook.Proofs.Number.Tolerance
import Schoolbook.Proofs.Polynomial.Degree
import Schoolbook.Proofs.Polynomial.Power
import Schoolbook.Proofs.Polynomial.Fragment
import Schoolbook.Proofs.Polynomial.Difference
import Schoolbook.Proofs.Number.Text
import Schoolbook.Proofs.Expr.Bases
import Schoolbook.Proofs.Polynomial.Text
import Schoolbook.Proofs.Double.Interval
import Schoolbook.Proofs.Double.Pattern
import Schoolbook.Proofs.Double.Scientific
import Schoolbook.Proofs.Number.Shortest
import Schoolbook.Proofs.Json.Layer
import Schoolbook.Proofs.Json.Numeral
import Schoolbook.Proofs.Json.Text
import Schoolbook.Proofs.Json.Canonical
import Schoolbook.Proofs.Json.Expr
import Schoolbook.Proofs.Number.Grouping
