import SparqlTree.Query.Parse
import SparqlTree.Statement.Path
import SparqlTree.Visit.Collect
import SparqlTree.Visit.Trace
import SparqlTree.Proofs.Token.Cover
import SparqlTree.Proofs.Grammar.Accepts
import SparqlTree.Proofs.Grammar.Conservation
import SparqlTree.Proofs.Query.Braces
import SparqlTree.Proofs.Query.Rewritten
import SparqlTree.Proofs.Statement.Texts
import SparqlTree.Proofs.Text.Words
import SparqlTree.Proofs.Grammar.Simulation
import SparqlTree.Proofs.Query.Simulation
import SparqlTree.Proofs.Query.ErrorPlace
import SparqlTree.Proofs.Query.Failure
import SparqlTree.Proofs.Query.ErrorLine
import SparqlTree.Proofs.Query.Spacing
import SparqlTree.Proofs.Query.Nesting
import SparqlTree.Proofs.Query.Window
import SparqlTree.Proofs.Query.Strictness
import SparqlTree.Proofs.Query.Reported
import SparqlTree.Proofs.Query.Truncation
import SparqlTree.Proofs.Query.Retargeting
import SparqlTree.Proofs.Query.Prologue
import SparqlTree.Proofs.Query.Composition
import SparqlTree.Proofs.Visit.Union
import SparqlTree.Proofs.Visit.Order
import SparqlTree.Proofs.Grammar.ForkBody
import SparqlTree.Proofs.Query.Fork
import SparqlTree.Proofs.Query.Refusal
import SparqlTree.Proofs.Query.Ask
import SparqlTree.Proofs.Query.GraphEdits
import SparqlTree.Proofs.Text.Variables
import SparqlTree.Proofs.Cursor.Stream
import SparqlTree.Proofs.Cursor.Keywords
import SparqlTree.Proofs.Diagnostic
import SparqlTree.Proofs.Query.Progress
import SparqlTree.Proofs.Grammar.Loops
