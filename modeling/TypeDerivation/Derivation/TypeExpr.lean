import TypeDerivation.TypeExpr.Shape
import TypeDerivation.Derivation.Context

namespace TypeDerivation.Context

open TypeDerivation.Derivation

variable (c : Context)

/-- A single word that names a primitive is that primitive, whatever else it may name. -/
def pathShape (p : SymbolPath) : Shape :=
  match p.singleName?.bind fun n => c.settings.primitives.get? (c.tree.text n) with
  | some prim => .primitive prim
  | none => .path p

def typeExprShape : TypeExpr → Shape
  | .tuple [] => .unit
  | .tuple elems => .tuple elems
  | .path p => c.pathShape p
  | .ref (some inner) mutable => .ref inner mutable
  | .ref none _ | .array .. | .slice .. | .ptr .. | .fnPtr .. | .never | .infer => .unknown

def shape (id : NodeId) : Derivation Shape := do
  match ← c.kind id with
  | .typeExpr a => return c.typeExprShape a
  | _ => return .unknown

/-- The type that a shape denotes, where `scope` is the node at which its path is read. -/
def shapeType (scope : NodeId) : Shape → Derivation Ty
  | .unknown => done .unknown
  | .unit => done .unit
  | .primitive p => done p.toTy
  | .tuple elems => Ty.ofElems <$> forEach denotedType elems
  | .ref inner mutable => (Ty.ref · mutable) <$> denotedType inner
  | .path p =>
    match c.resolver.path c.tree p scope with
    | some decl => entityType decl
    | none => done .unknown

def typeExprRule (id : NodeId) : Derivation Ty := do
  c.shapeType id (← c.shape id)

end TypeDerivation.Context
