import TypeDerivation.Derivation.TypeExpr
import TypeDerivation.Derivation.Binding
import TypeDerivation.Derivation.Expression

namespace TypeDerivation.Context

open TypeDerivation.Derivation

variable (c : Context)

/-- An item declares a type, stands for one, or has one as a function. -/
def itemTypeOf (id : NodeId) : Item → Derivation Ty
  | .struct .. => done (.struct id)
  | .enum .. => done (.enum id)
  | .trait .. => done (.trait id)
  | .typeAlias _ _ target => denotedOr .unknown target
  | .fn .. => c.fnType id
  | .impl .. | .const .. | .static .. | .module .. | .use .. => done .unknown

def itemRule (id : NodeId) : Derivation Ty := do
  match ← c.kind id with
  | .item i => c.itemTypeOf id i
  | _ => return .unknown

def entityRule (id : NodeId) : Derivation Ty := do
  match ← c.kind id with
  | .item i => c.itemTypeOf id i
  | .decl (.selfParam ..) => c.receiverType id
  | .pat (.binding ..) => c.bindingType id
  | .decl (.variant ..) => c.variantType id
  | .decl (.method ..) => c.fnType id
  | .decl (.typeParam ..) => return .typeParam id
  | _ => return .unknown

/-- How a request is answered from the answers to others. -/
def rule : Request → Derivation Ty
  | .expr id => c.exprRule id
  | .entity id => c.entityRule id
  | .item id => c.itemRule id
  | .typeExpr id => c.typeExprRule id

end TypeDerivation.Context
