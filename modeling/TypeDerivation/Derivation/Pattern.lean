import TypeDerivation.Derivation.Context

/-!
From the type of a pattern to the type of a binding inside it. The way leads down from pattern to
pattern; it carries the type of the place reached and how a plain binding takes hold of it there.
-/

namespace TypeDerivation

structure Place where
  ty : Ty
  /-- Set once a reference was looked through, to whether all of them were mutable. -/
  mode : Option Bool
deriving DecidableEq, Inhabited

namespace Place

def lookThrough : Ty → Option Bool → Place
  | .ref inner mutable, mode => lookThrough inner (some (mode.elim mutable (· && mutable)))
  | ty, mode => ⟨ty, mode⟩

def opened (s : Place) : Place := lookThrough s.ty s.mode

/-- What a reference refers to is taken as it is. -/
def referred? (s : Place) : Option Place :=
  match s.ty with
  | .ref inner _ => some ⟨inner, none⟩
  | _ => none

/-- The type that a binding gives to its name. -/
def bound (s : Place) (byRef mutable : Bool) : Ty :=
  if byRef then .ref s.ty mutable else s.mode.elim s.ty (.ref s.ty)

end Place

/-- The patterns above a node, the nearest first, up to the first node that is none. -/
def SyntaxTree.patsAbove (t : SyntaxTree) (id : NodeId) : List NodeId :=
  (t.ancestors id).takeWhile (t.holds NodeKind.isPat)

namespace Context

open TypeDerivation.Derivation

variable (c : Context)

/-- The fields of the struct or variant that a pattern names, if `ty` is that struct or the enum
of that variant. -/
def fieldsFor (pat : NodeId) (ty : Ty) : Derivation (Option (List NodeId)) := do
  match c.declOf? pat with
  | none => return none
  | some decl =>
    match ← c.kind decl, ty with
    | .item (.struct _ _ fields), .struct d => return if d = decl then some fields else none
    | .decl (.variant _ fields), .enum d =>
      return if c.tree.variantEnum? decl = some d then some fields else none
    | _, _ => return none

def fieldNamed (n : Name) : List NodeId → Derivation (Option NodeId)
  | [] => done none
  | id :: rest => do
    match ← c.kind id with
    | .decl (.field m _) => if m = n then return some id else fieldNamed n rest
    | _ => fieldNamed n rest

def fieldTypeExpr (id : NodeId) : Derivation (Option NodeId) := do
  match ← c.kind id with
  | .decl (.field _ ty) => return ty
  | .decl (.tupleField ty) => return some ty
  | _ => return none

def enterField (s : Place) : Option NodeId → Derivation (Option Place)
  | none => done none
  | some id => do
    match ← c.fieldTypeExpr id with
    | none => return none
    | some written => return some { s with ty := ← denotedType written }

def enterNamed (pat child : NodeId) (fields : List FieldPat) (s : Place) :
    Derivation (Option Place) := do
  match fields.find? (·.pat = child) with
  | none => return none
  | some f =>
    match ← c.fieldsFor pat s.ty with
    | none => return none
    | some ids => c.enterField s (← c.fieldNamed f.name ids)

def enterPositional (pat child : NodeId) (elems : List NodeId) (s : Place) :
    Derivation (Option Place) := do
  match elems.findIdx? (· = child) with
  | none => return none
  | some index =>
    match ← c.fieldsFor pat s.ty with
    | none => return none
    | some ids => c.enterField s ids[index]?

/-- The place of an entry of a tuple that has `arity` of them. The entry is taken out of the tuple,
so it has to be there. -/
def enterEntry (s : Place) (arity index : Nat) : Derivation (Option Place) :=
  match s.ty with
  | .tuple tys =>
    if tys.length = arity then
      match tys[index]? with
      | some ty => done (some { s with ty := ty })
      | none => stop (.beyond tys.length index)
    else done none
  | _ => done none

def descend (pat child : NodeId) (s : Place) : Derivation (Option Place) := do
  match ← c.kind pat with
  | .pat (.binding _ _ _ sub) => return if sub = some child then some s else none
  | .pat (.ref inner _) => return if inner = child then s.referred? else none
  | .pat (.tuple elems) =>
    match elems.findIdx? (· = child) with
    | none => return none
    | some index => enterEntry s.opened elems.length index
  | .pat (.struct _ fields) => c.enterNamed pat child fields s.opened
  | .pat (.tupleStruct _ elems) => c.enterPositional pat child elems s.opened
  | _ => return none

/-- Down a chain of patterns, from each to the next. -/
def descendAll : List NodeId → Place → Derivation (Option Place)
  | pat :: child :: rest, s => do
    match ← c.descend pat child s with
    | none => return none
    | some s => descendAll (child :: rest) s
  | _, s => done (some s)

/-- The type that the node at the end of the way gives to its name. -/
def bindingAt (id : NodeId) (s : Place) : Derivation Ty := do
  match ← c.kind id with
  | .pat (.binding _ byRef mutable _) => return s.bound byRef mutable
  | _ => return .unknown

/-- Takes the type of the pattern `top` apart down to a binding inside it. The way begins at the
outermost pattern, which has to be `top` unless the binding is. -/
def inferStructural (binding top : NodeId) (ty : Ty) : Derivation Ty := do
  let above := c.tree.patsAbove binding
  if binding ≠ top ∧ above.getLast? ≠ some top then return .unknown
  else
    match ← c.descendAll (above.reverse ++ [binding]) ⟨ty, none⟩ with
    | none => return .unknown
    | some s => c.bindingAt binding s

def infer : Inference → NodeId → NodeId → Ty → Derivation Ty
  | .structural, binding, top, ty => c.inferStructural binding top ty
  | .identity, _, _, ty => done ty

end Context
end TypeDerivation
