import TypeDerivation.Engine.Answer
import TypeDerivation.Tree.Cover

namespace TypeDerivation

inductive Query where
  | expr (node : NodeId)
  | entity (node : NodeId)
  | item (node : NodeId)
  | typeExpr (node : NodeId)
  | shape (shape : Shape) (scope : NodeId)
  | infer (inference : Inference) (binding top : NodeId) (ty : Ty)
deriving Inhabited

namespace Context

variable (c : Context)

def queried : Query → Derivation Ty
  | .expr node => .exprType node
  | .entity node => .entityType node
  | .item node => c.itemType node
  | .typeExpr node => .denotedType node
  | .shape shape scope => c.shapeType scope shape
  | .infer inference binding top ty => c.infer inference binding top ty

def answerQuery (q : Query) : Guarded Ty := c.eval (c.queried q)

/-- A node that has a type of its own: an expression by its value, all else by what it declares. -/
def typeableType (id : NodeId) : Derivation Ty := do
  if (← c.kind id).isExpr then .exprType id else .entityType id

/-- The innermost node at an offset that has a type, and its type. -/
def typeAtOffset (offset : Nat) : Derivation (Option (NodeId × Ty)) := do
  match c.tree.nodeAtOffset? NodeKind.isTypeable offset with
  | none => return none
  | some id => return some (id, ← c.typeableType id)

end Context
end TypeDerivation
