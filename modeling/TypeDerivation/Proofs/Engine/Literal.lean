import TypeDerivation.Proofs.Engine.Answers
import TypeDerivation.Proofs.Literal.Suffix
import TypeDerivation.Tree.Step

/-!
Numbers with and without a suffix, from the text to the type.
-/

namespace TypeDerivation

namespace Context

open TypeDerivation.Derivation Numeral

variable {c : Context} {id : NodeId} {r : Request} {g g' : Guards} {ty default : Ty}
  {text : String} {allowed : NumericKind → Prop} {n : Numeral}

end Context

open Numeral

end TypeDerivation
