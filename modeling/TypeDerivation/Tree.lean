import TypeDerivation.Node.Children
import TypeDerivation.Span

namespace TypeDerivation

structure Node where
  kind : NodeKind
  span : Span
  parent : Option NodeId
deriving DecidableEq, Inhabited

structure SyntaxTree where
  nodes : Array Node
  names : NameTable

namespace SyntaxTree

def empty : SyntaxTree := ⟨#[], .initial⟩

variable (t : SyntaxTree)

def size : Nat := t.nodes.size

def isEmpty : Bool := t.nodes.isEmpty

def ids : List NodeId := (List.range t.size).map NodeId.mk

def get? (id : NodeId) : Option Node := t.nodes[id.index]?

def kind? (id : NodeId) : Option NodeKind := (t.get? id).map (·.kind)

/-- Whether the node is there and its kind satisfies `p`. -/
def holds (p : NodeKind → Bool) (id : NodeId) : Bool := (t.kind? id).any p

def span (id : NodeId) : Span := (t.get? id).elim .dummy (·.span)

def parent? (id : NodeId) : Option NodeId := (t.get? id).bind (·.parent)

def children (id : NodeId) : List NodeId := (t.kind? id).elim [] (·.children)

def name? (id : NodeId) : Option Name := (t.kind? id).bind (·.name?)

def text (n : Name) : String := t.names.text n

def debugText : String :=
  "SyntaxTree \x7b " ++ toString t.size ++ " nodes, " ++ toString t.names.size ++ " names \x7d"

variable {t} {id : NodeId}

theorem mem_ids_iff : id ∈ t.ids ↔ id.index < t.size := by
  simp only [ids, List.mem_map, List.mem_range]
  exact ⟨fun ⟨_, h, e⟩ => e ▸ h, fun h => ⟨_, h, rfl⟩⟩

theorem get?_isSome_iff : (t.get? id).isSome = true ↔ id.index < t.size := by
  simp [get?, size]

theorem get?_eq_none_iff : t.get? id = none ↔ t.size ≤ id.index := by
  simp [get?, size]

end SyntaxTree
end TypeDerivation
