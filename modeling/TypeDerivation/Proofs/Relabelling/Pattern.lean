import TypeDerivation.Proofs.Relabelling.Derivation

namespace TypeDerivation.Context.Echoes

open TypeDerivation.Derivation

variable {ρ : Relabelling} {c c' : Context} {reply reply' : Replies} {pat child : NodeId}
  {k : NodeKind} (h : c.Echoes ρ c' reply reply')
include h

theorem node_eq_iff {a b : NodeId} : ρ.node a = ρ.node b ↔ a = b := h.tree.injective.eq_iff

theorem fieldsFor (hk : c.tree.kind? pat = some k) (ty : Ty) :
    Mirrored ρ reply reply' (Option.map (List.map ρ.node)) (c.fieldsFor pat ty)
      (c'.fieldsFor (ρ.node pat) (ty.relabel ρ)) := by
  rw [Context.fieldsFor, Context.fieldsFor, h.declOf? hk]
  cases c.declOf? pat with
  | none => exact .done rfl
  | some decl =>
    apply h.kind_bind
    intro k _
    cases k with
    | item i =>
      cases i with
      | struct _ _ fields =>
        cases ty with
        | struct d =>
          apply Mirrored.done
          simp only [h.node_eq_iff]
          split <;> rfl
        | _ => exact .done rfl
      | _ => exact .done rfl
    | decl d =>
      cases d with
      | variant _ fields =>
        cases ty with
        | enum d =>
          apply Mirrored.done
          simp only [h.tree.variantEnum?, h.tree.map_some_eq_iff]
          split <;> rfl
        | _ => exact .done rfl
      | _ => exact .done rfl
    | _ => exact .done rfl

theorem fieldNamed {n : Name} (hn : c.tree.Mentions n) (ids : List NodeId) :
    Mirrored ρ reply reply' (Option.map ρ.node) (c.fieldNamed n ids)
      (c'.fieldNamed (ρ.name n) (ids.map ρ.node)) := by
  induction ids with
  | nil => exact .done rfl
  | cons id rest ih =>
    apply h.kind_bind
    intro k hk
    cases k with
    | decl d =>
      cases d with
      | field m _ =>
        have hm : c.tree.Mentions m := ⟨id, _, hk, List.mem_cons_self⟩
        have hname : ρ.name m = ρ.name n ↔ m = n :=
          ⟨h.tree.name_inj hm hn, congrArg ρ.name⟩
        simp only [NodeKind.relabel, Decl.relabel, hname]
        split
        · exact .done rfl
        · exact ih
      | _ => exact ih
    | _ => exact ih

theorem fieldTypeExpr (id : NodeId) :
    Mirrored ρ reply reply' (Option.map ρ.node) (c.fieldTypeExpr id)
      (c'.fieldTypeExpr (ρ.node id)) := by
  apply h.kind_bind
  intro k _
  cases k with
  | decl d => cases d <;> exact .done rfl
  | _ => exact .done rfl

theorem enterField (s : Place) (o : Option NodeId) :
    Mirrored ρ reply reply' (Option.map (Place.relabel ρ)) (c.enterField s o)
      (c'.enterField (s.relabel ρ) (o.map ρ.node)) := by
  cases o with
  | none => exact .done rfl
  | some id =>
    apply (h.fieldTypeExpr id).bind
    intro written
    cases written with
    | none => exact .done rfl
    | some written => exact (h.denotedType written).bind fun _ => .done rfl

theorem enterNamed {path : SymbolPath} {fields : List FieldPat}
    (hk : c.tree.kind? pat = some (.pat (.struct path fields))) (child : NodeId) (s : Place) :
    Mirrored ρ reply reply' (Option.map (Place.relabel ρ)) (c.enterNamed pat child fields s)
      (c'.enterNamed (ρ.node pat) (ρ.node child) (fields.map (FieldPat.relabel ρ))
        (s.relabel ρ)) := by
  have hfind : (fields.map (FieldPat.relabel ρ)).find? (·.pat = ρ.node child) =
      (fields.find? (·.pat = child)).map (FieldPat.relabel ρ) := by
    rw [List.find?_map]
    congr 2
    funext f
    exact decide_eq_decide.mpr h.node_eq_iff
  rw [Context.enterNamed, Context.enterNamed, hfind]
  cases hf : fields.find? (·.pat = child) with
  | none => exact .done rfl
  | some f =>
    have hn : c.tree.Mentions f.name :=
      ⟨pat, _, hk, List.mem_append_right _ (List.mem_map_of_mem (List.mem_of_find?_eq_some hf))⟩
    apply (h.fieldsFor hk s.ty).bind
    intro ids
    cases ids with
    | none => exact .done rfl
    | some ids => exact (h.fieldNamed hn ids).bind fun o => h.enterField s o

theorem findIdx?_map_node (elems : List NodeId) (child : NodeId) :
    (elems.map ρ.node).findIdx? (· = ρ.node child) = elems.findIdx? (· = child) := by
  rw [List.findIdx?_map]
  congr 1
  funext x
  exact decide_eq_decide.mpr h.node_eq_iff

theorem enterPositional (hk : c.tree.kind? pat = some k) (child : NodeId) (elems : List NodeId)
    (s : Place) :
    Mirrored ρ reply reply' (Option.map (Place.relabel ρ)) (c.enterPositional pat child elems s)
      (c'.enterPositional (ρ.node pat) (ρ.node child) (elems.map ρ.node) (s.relabel ρ)) := by
  rw [Context.enterPositional, Context.enterPositional, h.findIdx?_map_node]
  cases elems.findIdx? (· = child) with
  | none => exact .done rfl
  | some index =>
    apply (h.fieldsFor hk s.ty).bind
    intro ids
    cases ids with
    | none => exact .done rfl
    | some ids =>
      simp only [Option.map_some, List.getElem?_map]
      exact h.enterField s _

omit h in
theorem enterEntry (s : Place) (arity index : Nat) :
    Mirrored ρ reply reply' (Option.map (Place.relabel ρ)) (enterEntry s arity index)
      (Context.enterEntry (s.relabel ρ) arity index) := by
  obtain ⟨ty, mode⟩ := s
  cases ty with
  | tuple tys =>
    rw [Place.relabel, Ty.relabel_tuple, Context.enterEntry, Context.enterEntry]
    simp only [List.length_map, List.getElem?_map]
    split
    · cases tys[index]? with
      | none => rfl
      | some ty => exact .done rfl
    · exact .done rfl
  | _ => exact .done rfl

theorem descend (pat child : NodeId) (s : Place) :
    Mirrored ρ reply reply' (Option.map (Place.relabel ρ)) (c.descend pat child s)
      (c'.descend (ρ.node pat) (ρ.node child) (s.relabel ρ)) := by
  apply h.kind_bind
  intro k hk
  cases k with
  | pat p =>
    cases p with
    | binding _ _ _ sub =>
      apply Mirrored.done
      simp only [h.tree.map_some_eq_iff]
      split <;> rfl
    | ref inner _ =>
      apply Mirrored.done
      simp only [h.node_eq_iff, s.referred?_relabel]
      split <;> rfl
    | tuple elems =>
      simp only [NodeKind.relabel, Pat.relabel]
      rw [h.findIdx?_map_node, s.opened_relabel, List.length_map]
      cases elems.findIdx? (· = child) with
      | none => exact .done rfl
      | some index => exact enterEntry s.opened _ index
    | struct path fields =>
      have hs := h.enterNamed hk child s.opened
      rwa [← s.opened_relabel] at hs
    | tupleStruct path elems =>
      have hs := h.enterPositional hk child elems s.opened
      rwa [← s.opened_relabel] at hs
    | _ => exact .done rfl
  | _ => exact .done rfl

theorem descendAll (chain : List NodeId) (s : Place) :
    Mirrored ρ reply reply' (Option.map (Place.relabel ρ)) (c.descendAll chain s)
      (c'.descendAll (chain.map ρ.node) (s.relabel ρ)) := by
  induction chain generalizing s with
  | nil => exact .done rfl
  | cons pat rest ih =>
    cases rest with
    | nil => exact .done rfl
    | cons child rest =>
      apply (h.descend pat child s).bind
      intro o
      cases o with
      | none => exact .done rfl
      | some s => exact ih s

theorem bindingAt (id : NodeId) (s : Place) :
    Mirrored ρ reply reply' (Ty.relabel ρ) (c.bindingAt id s)
      (c'.bindingAt (ρ.node id) (s.relabel ρ)) := by
  apply h.kind_bind
  intro k _
  cases k with
  | pat p =>
    cases p with
    | binding _ byRef mutable _ => exact .done (s.bound_relabel byRef mutable)
    | _ => exact .unknown
  | _ => exact .unknown

theorem infer (i : Inference) (id top : NodeId) (ty : Ty) :
    Mirrored ρ reply reply' (Ty.relabel ρ) (c.infer i id top ty)
      (c'.infer i (ρ.node id) (ρ.node top) (ty.relabel ρ)) := by
  cases i with
  | identity => exact .done rfl
  | structural =>
    rw [Context.infer, Context.infer, inferStructural, inferStructural, h.tree.patsAbove]
    simp only [List.getLast?_map, ne_eq, h.node_eq_iff, h.tree.map_some_eq_iff]
    split
    · exact .unknown
    · have hchain : ((c.tree.patsAbove id).map ρ.node).reverse ++ [ρ.node id] =
          ((c.tree.patsAbove id).reverse ++ [id]).map ρ.node := by simp
      rw [hchain]
      apply (h.descendAll _ ⟨ty, none⟩).bind
      intro o
      cases o with
      | none => exact .unknown
      | some s => exact h.bindingAt id s

end TypeDerivation.Context.Echoes
