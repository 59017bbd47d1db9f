import TypeDerivation.Engine.Query
import TypeDerivation.Proofs.Derivation.Requests.Rule
import TypeDerivation.Proofs.Tree.Cover

namespace TypeDerivation

namespace Query

def request? : Query → Option Request
  | expr id => some (.expr id)
  | entity id => some (.entity id)
  | item id => some (.item id)
  | typeExpr id => some (.typeExpr id)
  | shape .. | infer .. => none

/-- The query is about nodes of the tree, it asks for an item only where there is one, and a type
that it brings along could be an answer. -/
def Proper (t : SyntaxTree) : Query → Prop
  | expr id | entity id | typeExpr id => id.index < t.size
  | item id => ∃ i, t.kind? id = some (.item i)
  | shape s scope => scope.index < t.size ∧ ∀ x ∈ s.parts, x.index < t.size
  | infer _ binding _ ty => binding.index < t.size ∧ ty.Formed t

end Query

namespace Context

open TypeDerivation.Derivation

variable {c : Context} {q : Query} {r : Request}

theorem queried_of_proper (hq : q.request? = some r) (hr : r.Proper c.tree) :
    c.queried q = .request r := by
  cases q with
  | expr id | entity id | typeExpr id =>
    cases hq
    rfl
  | item id =>
    cases hq
    obtain ⟨i, hi⟩ := hr
    rw [queried, itemType, kind_eq_done hi]
    rfl
  | shape _ _ | infer _ _ _ _ => cases hq

/-- A query about a node of the tree makes a proper request, or it asks for an item and the node
is none. -/
theorem queried_cases (hq : q.request? = some r) (hid : r.node.index < c.tree.size) :
    r.Proper c.tree ∨ ∃ id k, q = .item id ∧ c.tree.kind? id = some k ∧ k.isItem = false ∧
      c.queried q = .stop (.notAnItem id k.category) := by
  cases q with
  | expr id | entity id | typeExpr id =>
    cases hq
    exact .inl hid
  | item id =>
    cases hq
    obtain ⟨k, hk⟩ := SyntaxTree.kind?_of_lt hid
    cases hi : k.isItem with
    | false => exact .inr ⟨id, k, rfl, hk, hi, itemType_eq_stop hk hi⟩
    | true =>
      cases k with
      | item i => exact .inl ⟨i, hk⟩
      | _ => cases hi
  | shape _ _ | infer _ _ _ _ => cases hq

theorem meets_queried (ht : c.tree.Ordered) (hR : c.resolver.Within c.tree)
    (hq : q.Proper c.tree) :
    (c.queried q).Meets (Request.Proper c.tree) (Ty.Formed c.tree) (Ty.Formed c.tree) := by
  cases q with
  | expr id => exact .request (r := .expr id) hq
  | entity id => exact .request (r := .entity id) hq
  | typeExpr id => exact .request (r := .typeExpr id) hq
  | item id =>
    obtain ⟨i, hi⟩ := hq
    exact meets_itemType hi ⟨i, hi⟩
  | shape s scope => exact meets_shapeType hR scope hq.2 fun _ hd => hd
  | infer i binding top ty =>
    exact meets_infer ht hR (fun _ hr => hr.1) (Ty.hereditary_formed _) i hq.1 top hq.2

theorem meets_typeAtOffset (offset : Nat) :
    (c.typeAtOffset offset).Meets (Request.Proper c.tree) (Ty.Formed c.tree)
      fun o => ∀ a ∈ o, a.2.Formed c.tree := by
  rw [typeAtOffset]
  split
  · exact .done (by simp)
  · rename_i id hid
    have hlt : id.index < c.tree.size := SyntaxTree.lt_of_nodeAtOffset? hid
    have htype : (c.typeableType id).Meets (Request.Proper c.tree) (Ty.Formed c.tree)
        (Ty.Formed c.tree) := by
      rw [typeableType]
      apply (meets_kind hlt).bind
      intro k _
      split
      · exact .request hlt
      · exact .request hlt
    exact htype.bind fun ty hty => .done fun a ha => by
      cases ha
      exact hty

end Context

end TypeDerivation
