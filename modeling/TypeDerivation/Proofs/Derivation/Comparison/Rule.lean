import TypeDerivation.Proofs.Derivation.Comparison.Expression
import TypeDerivation.Proofs.Derivation.Comparison.Pattern

namespace TypeDerivation.Context.Improves

open TypeDerivation.Derivation

variable {c : Context} {R' : Resolver} {reply reply' : Replies} {id : NodeId}
  (h : c.Improves R' reply reply')
include h

theorem shapeType {scope : NodeId} (hs : scope.index < c.tree.size) (shape : Shape) :
    Related reply reply' Ty.Blurs (c.shapeType scope shape)
      ((c.withResolver R').shapeType scope shape) := by
  cases shape with
  | unknown => exact .unknown _
  | unit => exact .done (.refl _)
  | primitive p => exact .done (.refl _)
  | tuple elems => exact (Related.forEach fun _ => h.request _).map fun _ _ hs => hs.ofElems
  | ref inner m => exact (h.request _).map fun _ _ hab => .ref m hab
  | path p =>
    rw [Context.shapeType, Context.shapeType]
    cases hd : c.resolver.path c.tree p scope with
    | none => exact .unknown _
    | some decl =>
      have hd' : (c.withResolver R').resolver.path (c.withResolver R').tree p scope = some decl :=
        h.resolver.path hs hd
      rw [hd']
      exact h.request _

theorem typeExprRule (id : NodeId) :
    Related reply reply' Ty.Blurs (c.typeExprRule id) ((c.withResolver R').typeExprRule id) := by
  have hshape : Related reply reply' (fun s s' => s = s' ∧ id.index < c.tree.size) (c.shape id)
      ((c.withResolver R').shape id) := by
    refine related_kind fun k hk => ?_
    have hid := SyntaxTree.lt_of_kind? hk
    split
    · exact .done ⟨rfl, hid⟩
    · exact .done ⟨rfl, hid⟩
  refine hshape.bind fun s s' hs => ?_
  obtain ⟨rfl, hid⟩ := hs
  exact h.shapeType hid s

theorem bindingType (id : NodeId) :
    Related reply reply' Ty.Blurs (c.bindingType id) ((c.withResolver R').bindingType id) := by
  rw [Context.bindingType, Context.bindingType]
  dsimp only [tree_withResolver]
  cases c.tree.origin? (c.tree.topPat id) with
  | none => exact .unknown _
  | some origin =>
    have htype : Related reply reply' Ty.Blurs origin.type origin.type := by
      cases origin with
      | typeExpr x => exact h.request _
      | expr x => exact h.request _
      | unstated => exact .unknown _
    exact htype.bind fun ty ty' hty => h.infer c.inference id _ hty

theorem itemTypeOf (id : NodeId) (i : Item) :
    Related reply reply' Ty.Blurs (c.itemTypeOf id i) ((c.withResolver R').itemTypeOf id i) := by
  cases i with
  | struct _ _ _ | enum _ _ _ | trait _ _ _ => exact .done (.refl _)
  | typeAlias _ _ target => exact h.denotedOr .unknown target
  | fn _ _ => exact h.fnType id
  | impl _ _ _ _ | const _ _ _ | static _ _ _ _ | module _ _ | use _ => exact .unknown _

theorem itemRule (id : NodeId) :
    Related reply reply' Ty.Blurs (c.itemRule id) ((c.withResolver R').itemRule id) := by
  refine related_kind fun k _ => ?_
  split
  · exact h.itemTypeOf id _
  · exact .unknown _

theorem entityRule (id : NodeId) :
    Related reply reply' Ty.Blurs (c.entityRule id) ((c.withResolver R').entityRule id) := by
  refine related_kind fun k _ => ?_
  split
  · exact h.itemTypeOf id _
  · exact h.receiverType id
  · exact h.bindingType id
  · exact h.variantType id
  · exact h.fnType id
  · exact .done (.refl _)
  · exact .unknown _

theorem rule (r : Request) :
    Related reply reply' Ty.Blurs (c.rule r) ((c.withResolver R').rule r) := by
  cases r with
  | expr id => exact h.exprRule id
  | entity id => exact h.entityRule id
  | item id => exact h.itemRule id
  | typeExpr id => exact h.typeExprRule id

end TypeDerivation.Context.Improves
