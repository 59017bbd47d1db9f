import TypeDerivation.Derivation.Rule
import TypeDerivation.Proofs.Relabelling.Expression
import TypeDerivation.Proofs.Relabelling.Pattern

namespace TypeDerivation

def Shape.relabel (ρ : Relabelling) : Shape → Shape
  | unknown => unknown
  | unit => unit
  | primitive p => primitive p
  | tuple elems => tuple (elems.map ρ.node)
  | ref inner mutable => ref (ρ.node inner) mutable
  | path p => path (p.relabel ρ)

theorem SymbolPath.singleName?_relabel {ρ : Relabelling} (p : SymbolPath) :
    (p.relabel ρ).singleName? = p.singleName?.map ρ.name := by
  obtain ⟨head, segments⟩ := p
  cases head <;> cases segments <;> rfl

theorem Ty.relabel_toTy {ρ : Relabelling} (p : Primitive) : p.toTy.relabel ρ = p.toTy := by
  cases p <;> rw [Primitive.toTy, relabel]

theorem Context.eq_path_of_typeExprShape {c : Context} {e : TypeExpr} {p : SymbolPath}
    (h : c.typeExprShape e = .path p) : e = .path p := by
  cases e with
  | path q =>
    rw [typeExprShape, pathShape] at h
    split at h <;> cases h
    rfl
  | tuple elems => cases elems <;> cases h
  | ref inner _ => cases inner <;> cases h
  | _ => cases h

namespace Context.Echoes

open TypeDerivation.Derivation

variable {ρ : Relabelling} {c c' : Context} {reply reply' : Replies}
  (h : c.Echoes ρ c' reply reply')
include h

theorem pathShape {p : SymbolPath} (hp : ∀ n ∈ p.names, c.tree.Mentions n) :
    c'.pathShape (p.relabel ρ) = (c.pathShape p).relabel ρ := by
  have hword : (p.relabel ρ).singleName?.bind
      (fun n => c'.settings.primitives.get? (c'.tree.text n)) =
        p.singleName?.bind fun n => c.settings.primitives.get? (c.tree.text n) := by
    rw [p.singleName?_relabel, h.settings]
    cases hn : p.singleName? with
    | none => rfl
    | some n =>
      have hmem : n ∈ p.names := by
        rw [SymbolPath.singleName?_eq_some_iff.mp hn]
        exact List.mem_cons_self
      rw [Option.map_some, Option.bind_some, h.tree.text (hp n hmem), Option.bind_some]
  rw [Context.pathShape, Context.pathShape, hword]
  split <;> rfl

theorem typeExprShape {id : NodeId} {e : TypeExpr} (hk : c.tree.kind? id = some (.typeExpr e)) :
    c'.typeExprShape (e.relabel ρ) = (c.typeExprShape e).relabel ρ := by
  cases e with
  | path p => exact h.pathShape fun n hn => ⟨id, _, hk, hn⟩
  | tuple elems => cases elems <;> rfl
  | ref inner _ => cases inner <;> rfl
  | _ => rfl

theorem shapeType {shape : Shape} (hs : ∀ p, shape = .path p → ∀ n ∈ p.names, c.tree.Mentions n)
    (scope : NodeId) :
    Mirrored ρ reply reply' (Ty.relabel ρ) (c.shapeType scope shape)
      (c'.shapeType (ρ.node scope) (shape.relabel ρ)) := by
  cases shape with
  | unknown => exact .unknown
  | unit => exact .done (by rw [Ty.relabel])
  | primitive p => exact .done (Ty.relabel_toTy p).symm
  | tuple elems =>
    exact (Mirrored.forEach h.denotedType elems).map fun tys => (Ty.relabel_ofElems tys).symm
  | ref inner mutable => exact (h.denotedType inner).map fun _ => by rw [Ty.relabel]
  | path p =>
    rw [Context.shapeType, Shape.relabel, Context.shapeType, h.path scope (hs p rfl)]
    cases c.resolver.path c.tree p scope with
    | none => exact .unknown
    | some decl => exact h.request (.entity decl)

theorem typeExprRule (id : NodeId) :
    Mirrored ρ reply reply' (Ty.relabel ρ) (c.typeExprRule id) (c'.typeExprRule (ρ.node id)) := by
  rw [Context.typeExprRule, Context.typeExprRule, shape, shape, LawfulMonad.bind_assoc,
    LawfulMonad.bind_assoc]
  apply h.kind_bind
  intro k hk
  cases k with
  | typeExpr e =>
    simp only [NodeKind.relabel, pure_bind]
    rw [h.typeExprShape hk]
    apply h.shapeType
    intro p hp n hn
    cases eq_path_of_typeExprShape hp
    exact ⟨id, _, hk, hn⟩
  | _ => exact .unknown

theorem bindingType (id : NodeId) :
    Mirrored ρ reply reply' (Ty.relabel ρ) (c.bindingType id) (c'.bindingType (ρ.node id)) := by
  rw [Context.bindingType, Context.bindingType]
  simp only [h.tree.topPat, h.tree.origin?, h.inference]
  cases c.tree.origin? (c.tree.topPat id) with
  | none => exact .unknown
  | some origin =>
    have htype : Mirrored ρ reply reply' (Ty.relabel ρ) origin.type (origin.relabel ρ).type := by
      cases origin with
      | typeExpr node => exact h.denotedType node
      | expr node => exact h.exprType node
      | unstated => exact .unknown
    exact htype.bind fun ty => h.infer c.inference id _ ty

theorem itemTypeOf (id : NodeId) (i : Item) :
    Mirrored ρ reply reply' (Ty.relabel ρ) (c.itemTypeOf id i)
      (c'.itemTypeOf (ρ.node id) (i.relabel ρ)) := by
  cases i with
  | struct _ _ _ | enum _ _ _ | trait _ _ _ => exact .done (by rw [Ty.relabel])
  | typeAlias _ _ target => exact h.denotedOr (by rw [Ty.relabel]) target
  | fn _ _ => exact h.fnType id
  | impl _ _ _ _ | const _ _ _ | static _ _ _ _ | module _ _ | use _ => exact .unknown

theorem entityRule (id : NodeId) :
    Mirrored ρ reply reply' (Ty.relabel ρ) (c.entityRule id) (c'.entityRule (ρ.node id)) := by
  apply h.kind_bind
  intro k _
  cases k with
  | item i => exact h.itemTypeOf id i
  | decl d =>
    cases d with
    | selfParam _ _ => exact h.receiverType id
    | variant _ _ => exact h.variantType id
    | method _ _ => exact h.fnType id
    | typeParam _ => exact .done (by rw [Ty.relabel])
    | param _ _ | field _ _ | tupleField _ => exact .unknown
  | pat p =>
    cases p with
    | binding _ _ _ _ => exact h.bindingType id
    | _ => exact .unknown
  | _ => exact .unknown

theorem rule (r : Request) :
    Mirrored ρ reply reply' (Ty.relabel ρ) (c.rule r) (c'.rule (r.relabel ρ)) := by
  cases r with
  | expr id => exact h.exprRule id
  | entity id => exact h.entityRule id
  | typeExpr id => exact h.typeExprRule id
  | item id =>
    apply h.kind_bind
    intro k _
    cases k with
    | item i => exact h.itemTypeOf id i
    | _ => exact .unknown

end Context.Echoes

end TypeDerivation
