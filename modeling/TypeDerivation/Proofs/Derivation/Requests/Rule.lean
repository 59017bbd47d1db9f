import TypeDerivation.Proofs.Derivation.Requests.Expression
import TypeDerivation.Proofs.Derivation.Requests.Pattern

namespace TypeDerivation

def Origin.node? : Origin → Option NodeId
  | .typeExpr node | .expr node => some node
  | .unstated => none

namespace SyntaxTree

variable {t : SyntaxTree} {top : NodeId} {origin : Origin}

theorem bindOrigin?_node {ty init : Option NodeId} (h : bindOrigin? ty init = some origin)
    {x : NodeId} (hx : x ∈ origin.node?) : x ∈ ty ∨ x ∈ init := by
  cases ty with
  | some ty =>
    cases h
    exact .inl hx
  | none =>
    obtain ⟨e, he, rfl⟩ := Option.map_eq_some_iff.mp h
    cases hx
    exact .inr he

theorem Ordered.lt_of_scrutinee? (ht : t.Ordered) {id x : NodeId} (h : t.scrutinee? id = some x) :
    x.index < t.size := by
  rw [scrutinee?] at h
  split at h
  · rename_i hk
    exact ht.child_lt_size hk (by simp [NodeKind.children, Expr.children, h])
  · cases h

theorem Ordered.lt_of_origin? (ht : t.Ordered) (h : t.origin? top = some origin) {x : NodeId}
    (hx : x ∈ origin.node?) : x.index < t.size := by
  obtain ⟨owner, -, h⟩ := Option.bind_eq_some_iff.mp h
  obtain ⟨k, hk, h⟩ := Option.bind_eq_some_iff.mp h
  have hchild {y : NodeId} (hy : y ∈ k.children) : y.index < t.size := ht.child_lt_size hk hy
  split at h
  · split at h
    · rcases bindOrigin?_node h hx with hx | hx
      · exact hchild (by simp [NodeKind.children, Stmt.children, Option.mem_def.mp hx])
      · exact hchild (by simp [NodeKind.children, Stmt.children, Option.mem_def.mp hx])
    · cases h
  · split at h
    · rename_i ty _
      cases h
      cases ty with
      | none => cases hx
      | some ty =>
        cases hx
        exact hchild (by simp [NodeKind.children, Decl.children])
    · cases h
  · split at h
    · obtain ⟨e, he, rfl⟩ := Option.map_eq_some_iff.mp h
      cases hx
      exact hchild (by simp [NodeKind.children, he])
    · cases h
  · split at h
    · obtain ⟨e, he, rfl⟩ := Option.map_eq_some_iff.mp h
      cases hx
      obtain ⟨m, -, hm⟩ := Option.bind_eq_some_iff.mp he
      exact ht.lt_of_scrutinee? hm
    · cases h
  · cases h

end SyntaxTree

namespace Context

open TypeDerivation.Derivation Request

variable {c : Context} {id : NodeId} (ht : c.tree.Ordered) (hR : c.resolver.Within c.tree)

theorem mem_children_of_mem_parts {e : TypeExpr} {x : NodeId}
    (h : x ∈ (c.typeExprShape e).parts) : x ∈ e.children := by
  cases e with
  | tuple elems =>
    cases elems with
    | nil => cases h
    | cons a rest => exact h
  | path p =>
    rw [typeExprShape, pathShape] at h
    split at h
    · cases h
    · cases h
  | ref inner m =>
    cases inner with
    | none => cases h
    | some inner => exact h
  | array _ _ | slice _ | ptr _ _ | fnPtr _ _ | never | infer => cases h

theorem typeExprShape_ne_tuple_nil (e : TypeExpr) : c.typeExprShape e ≠ .tuple [] := by
  cases e with
  | tuple elems => cases elems <;> simp [typeExprShape]
  | path p =>
    rw [typeExprShape, pathShape]
    split <;> simp
  | ref inner m => cases inner <;> simp [typeExprShape]
  | array _ _ | slice _ | ptr _ _ | fnPtr _ _ | never | infer => simp [typeExprShape]

include ht in
theorem meets_shape (hid : id.index < c.tree.size) {P : Request → Prop} {W : Ty → Prop} :
    (c.shape id).Meets P W fun s => s ≠ .tuple [] ∧ ∀ x ∈ s.parts, x.index < id.index := by
  rw [shape]
  apply (meets_kind hid).bind
  intro k hk
  split
  · exact .done ⟨typeExprShape_ne_tuple_nil _, fun x hx =>
      ht.child_lt hk (mem_children_of_mem_parts hx)⟩
  · exact .done (by simp [Shape.parts])

theorem itemRule_eq {i : Item} (hk : c.tree.kind? id = some (.item i)) :
    c.rule (.item id) = c.rule (.entity id) := by
  rw [rule, rule, itemRule, entityRule, kind_eq_done hk]
  rfl

include ht in
theorem meets_itemTypeOf {i : Item} (hk : c.tree.kind? id = some (.item i)) {P : Request → Prop}
    (hP : ∀ r, r.Proper c.tree → P r) :
    (c.itemTypeOf id i).Meets P (Ty.Formed c.tree) (Ty.Formed c.tree) := by
  cases i with
  | struct _ _ _ => exact .done (.struct hk)
  | enum _ _ _ => exact .done (.enum hk)
  | trait _ _ _ => exact .done (.trait hk)
  | typeAlias _ _ target =>
    refine meets_denotedOr .unknown fun x hx => hP _ (ht.child_lt_size hk ?_)
    simp [NodeKind.children, Item.children, Option.mem_def.mp hx]
  | fn _ _ => exact meets_fnType ht (fun r hr => hP r hr.1) (SyntaxTree.lt_of_kind? hk)
  | impl _ _ _ _ | const _ _ _ | static _ _ _ _ | module _ _ | use _ => exact .done .unknown

include hR

theorem meets_shapeType {P : Request → Prop} {s : Shape} (scope : NodeId)
    (hparts : ∀ x ∈ s.parts, P (.typeExpr x))
    (hpath : ∀ d : NodeId, d.index < c.tree.size → P (.entity d)) :
    (c.shapeType scope s).Meets P (Ty.Formed c.tree) (Ty.Formed c.tree) := by
  cases s with
  | unknown => exact .done .unknown
  | unit => exact .done .unit
  | primitive p => exact .done (Ty.formed_toTy p)
  | tuple elems =>
    exact (Meets.forEach fun x hx => .request (hparts x hx)).map fun _ h => Ty.formed_ofElems h.2
  | ref inner m =>
    exact (Meets.request (hparts inner (by simp [Shape.parts]))).map fun _ => .ref m
  | path p =>
    rw [shapeType]
    split
    · rename_i decl hd
      exact .request (hpath decl (hR.path hd))
    · exact .done .unknown

include ht

theorem meets_typeExprRule (hid : id.index < c.tree.size) :
    (c.typeExprRule id).Meets ((typeExpr id).Follows c.tree) (Ty.Formed c.tree)
      (Ty.Formed c.tree) := by
  rw [typeExprRule]
  apply (meets_shape ht hid).bind
  intro s hs
  exact meets_shapeType hR id (fun x hx => follows_typeExpr (hs.2 x hx) hid)
    fun d hd => typeExpr_follows_entity hd

theorem meets_bindingType (hid : id.index < c.tree.size) {P : Request → Prop}
    (hP : ∀ r, r.Proper c.tree → P r) :
    (c.bindingType id).Meets P (Ty.Formed c.tree) (Ty.Formed c.tree) := by
  rw [bindingType]
  split
  · exact .done .unknown
  · rename_i origin ho
    have htype : origin.type.Meets P (Ty.Formed c.tree) (Ty.Formed c.tree) := by
      cases origin with
      | typeExpr x => exact .request (hP _ (ht.lt_of_origin? ho rfl))
      | expr x => exact .request (hP _ (ht.lt_of_origin? ho rfl))
      | unstated => exact .done .unknown
    exact htype.bind fun ty hty =>
      meets_infer ht hR (fun r hr => hP r hr.1) (Ty.hereditary_formed _) _ hid _ hty

theorem meets_entityRule (hid : id.index < c.tree.size) {P : Request → Prop}
    (hP : ∀ r, r.Proper c.tree → P r) :
    (c.entityRule id).Meets P (Ty.Formed c.tree) (Ty.Formed c.tree) := by
  have hshallow (r : Request) (hr : r.Shallow c.tree) : P r := hP r hr.1
  rw [entityRule]
  apply (meets_kind hid).bind
  intro k hk
  split
  · exact meets_itemTypeOf ht hk hP
  · exact meets_receiverType ht hshallow hid
  · exact meets_bindingType ht hR hid hP
  · exact meets_variantType hshallow id
  · exact meets_fnType ht hshallow hid
  · exact .done (.typeParam hk)
  · exact .done .unknown

theorem meets_rule {r : Request} (hr : r.Proper c.tree) :
    (c.rule r).Meets (r.Follows c.tree) (Ty.Formed c.tree) (Ty.Formed c.tree) := by
  cases r with
  | expr id => exact meets_exprRule hR ht hr
  | typeExpr id => exact meets_typeExprRule ht hR hr
  | entity id => exact meets_entityRule ht hR hr fun r hr => follows_of_decl? (by simp [decl?]) hr
  | item id =>
    obtain ⟨i, hi⟩ := hr
    rw [itemRule_eq hi]
    exact meets_entityRule ht hR (SyntaxTree.lt_of_kind? hi) fun r hr =>
      follows_of_decl? (by simp [decl?]) hr

end Context

end TypeDerivation
