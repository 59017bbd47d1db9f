import TypeDerivation.Derivation.Context

namespace TypeDerivation

/-- The target of the impl around a node. A trait in between does not count. -/
def SyntaxTree.implTarget? (t : SyntaxTree) (id : NodeId) : Option NodeId := do
  match t.kind? (← t.enclosing? NodeKind.isImpl id) with
  | some (.item (.impl _ _ target _)) => target
  | _ => none

namespace Context

open TypeDerivation.Derivation

variable (c : Context)

/-- A receiver has the type of the impl around it, behind a reference if it was written so. -/
def receiverType (param : NodeId) : Derivation Ty := do
  match ← c.kind param with
  | .decl (.selfParam byRef mutable) =>
    let ty ← denotedOr .unknown (c.tree.implTarget? param)
    return if byRef then .ref ty mutable else ty
  | _ => return .unknown

def paramType (param : NodeId) : Derivation Ty := do
  match ← c.kind param with
  | .decl (.param _ ty) => denotedOr .unknown ty
  | _ => return .unknown

/-- A signature says what the function takes, the receiver first, and what it returns: the unit
type if nothing is written. -/
def signatureType (sig : Signature) : Derivation Ty := do
  let receiver ← forEach c.receiverType sig.selfParam.toList
  let params ← forEach c.paramType sig.params
  let ret ← denotedOr .unit sig.ret
  return .fn (receiver ++ params) ret

def fnType (id : NodeId) : Derivation Ty := do
  match (← c.kind id).signature? with
  | some sig => c.signatureType sig
  | none => return .unknown

end Context
end TypeDerivation
