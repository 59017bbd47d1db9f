import TypeDerivation.Tree

namespace TypeDerivation.SyntaxTree

variable (t : SyntaxTree)

def climb : Nat → NodeId → List NodeId
  | 0, _ => []
  | fuel + 1, id =>
    match t.parent? id with
    | none => []
    | some p => p :: climb fuel p

/-- The nodes above a node, the nearest first. A parent comes later in the tree than its child, so
no way up is longer than the tree. -/
def ancestors (id : NodeId) : List NodeId := t.climb t.size id

def enclosing? (p : NodeKind → Bool) (id : NodeId) : Option NodeId :=
  (t.ancestors id).find? (t.holds p)

def isAncestorOrSelf (above id : NodeId) : Bool :=
  id = above || (t.ancestors id).contains above

def roots : List NodeId := t.ids.filter fun id => (t.parent? id).isNone

/-- The enum that a variant belongs to: its body stands between them. -/
def variantEnum? (variant : NodeId) : Option NodeId := do
  let body ← (t.parent? variant).filter (t.holds NodeKind.isEnumBody)
  (t.parent? body).filter (t.holds NodeKind.isEnum)

variable {t}

theorem ancestors_eq_nil {id : NodeId} (h : t.parent? id = none) : t.ancestors id = [] := by
  rw [ancestors]
  cases t.size with
  | zero => rfl
  | succ n => simp [climb, h]

end TypeDerivation.SyntaxTree
