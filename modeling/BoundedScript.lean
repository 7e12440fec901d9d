import BoundedScript.Binary64.Arithmetic
import BoundedScript.CommandLine
import BoundedScript.Decimal.Layout
import BoundedScript.Evaluation
import BoundedScript.Main
import BoundedScript.Parser.Statement
import BoundedScript.Program
import BoundedScript.Proofs.Concatenation
import BoundedScript.Proofs.Evaluation.Ceiling
import BoundedScript.Proofs.Evaluation.Outcome
import BoundedScript.Proofs.Exact.Evaluation
import BoundedScript.Proofs.Exact.Refinement
import BoundedScript.Proofs.Grammar
import BoundedScript.Proofs.Lines
import BoundedScript.Proofs.Parser.Completeness
import BoundedScript.Proofs.Parser.Reads
import BoundedScript.Proofs.Parser.Soundness
import BoundedScript.Proofs.Token.Scanning
import BoundedScript.Proofs.Tree
import BoundedScript.Proofs.Value.Integers
import BoundedScript.Token.Scan
import BoundedScript.Value.Arithmetic
import BoundedScript.Value.Comparison
import BoundedScript.Proofs.Evaluation.Footprint
import BoundedScript.Proofs.Token.Segmentation
import BoundedScript.Proofs.WellFormed
import BoundedScript.Proofs.Printing
import BoundedScript.Proofs.Parser.Stability
import BoundedScript.Proofs.Parser.Truncation
import BoundedScript.Proofs.ScriptPath
import BoundedScript.Proofs.Evaluation.Expressions
import BoundedScript.Proofs.Evaluation.Blame
import BoundedScript.Proofs.Labels
import BoundedScript.Proofs.ReportedLines
import BoundedScript.Proofs.Evaluation.WhileLoop
import BoundedScript.Proofs.Evaluation.MissingValue
import BoundedScript.Proofs.Token.Writing
import BoundedScript.Proofs.Binary64.Exact
import BoundedScript.Proofs.Value.Order
import BoundedScript.Proofs.Evaluation.ForLoop
import BoundedScript.Proofs.Evaluation.SideEffects
import BoundedScript.Proofs.Value.RealArithmetic
import BoundedScript.Proofs.Evaluation.UnknownVariable
import BoundedScript.Proofs.Token.Comments
import BoundedScript.Proofs.Parser.Updates
import BoundedScript.Proofs.Value.Domain
import BoundedScript.Proofs.Environment
import BoundedScript.Proofs.Parser.Progress
import BoundedScript.Proofs.Binary64.Nearest
import BoundedScript.Proofs.Decimal.Reading
import BoundedScript.Proofs.Value.Text
