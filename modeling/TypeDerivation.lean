import TypeDerivation.TypeExpr.Text
import TypeDerivation.Engine.Query
import TypeDerivation.Proofs.Engine.Degradation
import TypeDerivation.Proofs.Engine.Destructuring
import TypeDerivation.Proofs.Engine.Safety
import TypeDerivation.Proofs.Engine.Truncation
import TypeDerivation.Proofs.Tree.Walk
import TypeDerivation.Proofs.Engine.Formedness
import TypeDerivation.Proofs.Engine.Isolation
import TypeDerivation.Proofs.Engine.StartingPattern
import TypeDerivation.Proofs.Relabelling.Engine
import TypeDerivation.Proofs.Engine.Brackets
import TypeDerivation.Proofs.Engine.Signature
import TypeDerivation.Proofs.Engine.Construction
import TypeDerivation.Proofs.Engine.Callable
import TypeDerivation.Proofs.Ty.Readability
import TypeDerivation.Proofs.Engine.Printing
import TypeDerivation.Proofs.Span
import TypeDerivation.Proofs.Tree.Nesting
import TypeDerivation.Proofs.Engine.Offset
import TypeDerivation.Proofs.Path.Spelling
import TypeDerivation.Proofs.Tree.Allocation
import TypeDerivation.Proofs.Path.Binding
import TypeDerivation.Proofs.Name.Calls
import TypeDerivation.Proofs.Path.RoundTrip
import TypeDerivation.Proofs.Engine.Literal
import TypeDerivation.Proofs.Node.Refilling
