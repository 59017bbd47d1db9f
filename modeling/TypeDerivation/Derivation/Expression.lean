import TypeDerivation.Derivation.Callable
import TypeDerivation.Derivation.Literal

namespace TypeDerivation.Context

open TypeDerivation.Derivation

variable (c : Context)

def pathType (id : NodeId) : Derivation Ty :=
  match c.declOf? id with
  | some decl => entityType decl
  | none => done .unknown

/-- An access has the type that is written at the field. -/
def fieldType (id : NodeId) : Derivation Ty := do
  match c.declOf? id with
  | none => return .unknown
  | some decl =>
    match ← c.kind decl with
    | .decl (.field _ ty) => denotedOr .unknown ty
    | .decl (.tupleField ty) => denotedType ty
    | _ => return .unknown

/-- A struct literal has the type of the struct, or of the enum whose variant it names. -/
def structLiteralType (id : NodeId) : Derivation Ty := do
  match c.declOf? id with
  | none => return .unknown
  | some decl =>
    match ← c.kind decl with
    | .item (.struct ..) => c.itemType decl
    | .decl (.variant ..) => c.variantType decl
    | _ => return .unknown

def unaryType : UnaryOp → Option NodeId → Derivation Ty
  | _, none | .box, _ => done .unknown
  | .ref mutable, some operand => (Ty.ref · mutable) <$> exprType operand
  | .deref, some operand | .neg, some operand | .not, some operand => exprType operand

def binaryType (op : BinaryOp) : Ty :=
  if op.isComparison || op.isLogical then .bool else .unknown

/-- The variant that a callee constructs, if it is a path to one. -/
def constructed? (callee : NodeId) : Derivation (Option NodeId) := do
  match ← c.kind callee with
  | .expr (.path _) =>
    match c.declOf? callee with
    | some decl => return if (← c.kind decl).isVariant then some decl else none
    | none => return none
  | _ => return none

/-- A call of a variant makes a value of its enum; any other call has what the callee returns. -/
def callType (callee : NodeId) : Derivation Ty := do
  match ← c.constructed? callee with
  | some variant => c.variantType variant
  | none => return (← exprType callee).ret?.getD .unknown

/-- A method call has what the method returns. Its signature is read without a request of its
own. -/
def methodCallType (id : NodeId) : Derivation Ty := do
  match c.declOf? id with
  | none => return .unknown
  | some decl =>
    if (← c.kind decl).hasSignature then return (← c.fnType decl).ret?.getD .unknown
    else return .unknown

/-- A block has the type of its tail, and the unit type without one. -/
def blockType : Option NodeId → Derivation Ty
  | none => done .unknown
  | some block => do
    match ← c.kind block with
    | .block _ (some tail) => exprType tail
    | .block _ none => return .unit
    | _ => return .unknown

/-- A choice without an alternative has the unit type; otherwise the first branch decides. -/
def branchType : Option NodeId → Option NodeId → Derivation Ty
  | _, none => done .unit
  | none, some _ => done .unknown
  | some thenBlock, some _ => exprType thenBlock

def exprTypeOf (id : NodeId) : Expr → Derivation Ty
  | .lit l => done (c.literalType l)
  | .unit => done .unit
  | .path _ => c.pathType id
  | .field .. => c.fieldType id
  | .struct .. => c.structLiteralType id
  | .unary op operand => unaryType op operand
  | .binary op .. => done (binaryType op)
  | .paren inner => exprType inner
  | .tuple elems => Ty.ofElems <$> forEach exprType elems
  | .call callee _ => c.callType callee
  | .methodCall .. => c.methodCallType id
  | .block inner => c.blockType inner
  | .branch _ thenBlock elseBranch => branchType thenBlock elseBranch
  | .whileLoop .. | .loop .. | .forLoop .. => done .unit
  | .array .. | .index .. | .cast .. | .select .. | .closure .. | .returnWith .. | .breakWith ..
  | .continueLoop => done .unknown

def exprRule (id : NodeId) : Derivation Ty := do
  match ← c.kind id with
  | .expr e => c.exprTypeOf id e
  | _ => return .unknown

end TypeDerivation.Context
