import TypeDerivation.Derivation
import TypeDerivation.Resolution
import TypeDerivation.Settings

namespace TypeDerivation

/-- How the type of a pattern reaches the bindings inside it. -/
inductive Inference where
  /-- By taking the type apart along the pattern. -/
  | structural
  /-- Unchanged. -/
  | identity
deriving DecidableEq, Inhabited

/-- Everything that the type of a node depends on. -/
structure Context where
  tree : SyntaxTree
  resolver : Resolver
  settings : Settings
  inference : Inference

namespace Context

variable (c : Context)

/-- Reads the kind of a node that has to be there. -/
def kind (id : NodeId) : Derivation NodeKind :=
  match c.tree.kind? id with
  | some k => .done k
  | none => .stop (.outside c.tree.size id.index)

def declOf? (id : NodeId) : Option NodeId := c.resolver.reference c.tree id

def itemType (id : NodeId) : Derivation Ty := do
  let k ← c.kind id
  if k.isItem then .request (.item id) else .stop (.notAnItem id k.category)

/-- A variant has the type of its enum. -/
def variantType (variant : NodeId) : Derivation Ty :=
  match c.tree.variantEnum? variant with
  | some decl => c.itemType decl
  | none => .done .unknown

variable {c} {id : NodeId}

theorem kind_eq_done {k : NodeKind} (h : c.tree.kind? id = some k) : c.kind id = .done k := by
  rw [kind, h]

end Context
end TypeDerivation
