import TypeDerivation.Derivation.Pattern

namespace TypeDerivation

inductive Origin where
  | typeExpr (node : NodeId)
  | expr (node : NodeId)
  /-- A parameter without a written type. -/
  | unstated
deriving DecidableEq, Inhabited

def Origin.type : Origin → Derivation Ty
  | typeExpr node => .denotedType node
  | expr node => .exprType node
  | unstated => .done .unknown

namespace SyntaxTree

variable (t : SyntaxTree)

def topPat (id : NodeId) : NodeId := (t.patsAbove id).getLast?.getD id

/-- A written type goes before an initial value. -/
def bindOrigin? : Option NodeId → Option NodeId → Option Origin
  | some ty, _ => some (.typeExpr ty)
  | none, init => init.map .expr

/-- The value that is matched against the arms of an expression. -/
def scrutinee? (id : NodeId) : Option NodeId :=
  match t.kind? id with
  | some (.expr (.select scrutinee _)) => scrutinee
  | _ => none

/-- The origin of an outermost pattern, given by the node that it is the pattern of. -/
def origin? (top : NodeId) : Option Origin := do
  let owner ← t.parent? top
  match ← t.kind? owner with
  | .stmt (.bind pat ty init) => if pat = some top then bindOrigin? ty init else none
  | .decl (.param pat ty) => if pat = some top then some (ty.elim .unstated .typeExpr) else none
  | .scopedLet pat scrutinee => if pat = some top then scrutinee.map .expr else none
  | .matchArm pat _ _ =>
    if pat = some top then ((t.parent? owner).bind t.scrutinee?).map .expr else none
  | _ => none

end SyntaxTree

namespace Context

variable (c : Context)

/-- A binding has what its inference makes of the type of the outermost pattern around it. -/
def bindingType (id : NodeId) : Derivation Ty := do
  let top := c.tree.topPat id
  match c.tree.origin? top with
  | none => return .unknown
  | some origin => c.infer c.inference id top (← origin.type)

end Context
end TypeDerivation
