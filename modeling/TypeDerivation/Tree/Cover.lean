import TypeDerivation.Tree

namespace TypeDerivation.SyntaxTree

variable (t : SyntaxTree)

def covers (p : NodeKind → Bool) (offset : Nat) (id : NodeId) : Bool :=
  (t.get? id).any fun node => node.span.contains offset && p node.kind

/-- The shorter of two nodes; of two that are equally long, the first. -/
def narrower (best : Option NodeId) (id : NodeId) : Option NodeId :=
  match best with
  | none => some id
  | some b => if (t.span id).length < (t.span b).length then some id else some b

/-- The shortest of the nodes that satisfy `p` and cover the offset. -/
def nodeAtOffset? (p : NodeKind → Bool) (offset : Nat) : Option NodeId :=
  (t.ids.filter (t.covers p offset)).foldl t.narrower none

end TypeDerivation.SyntaxTree
