import TypeDerivation.Derivation.Binding
import TypeDerivation.Proofs.Derivation.Requests

namespace TypeDerivation

namespace SyntaxTree

variable {t : SyntaxTree} {id pat : NodeId}

theorem lt_of_mem_patsAbove (h : pat ∈ t.patsAbove id) : pat.index < t.size :=
  lt_of_holds (List.all_eq_true.mp List.all_takeWhile pat h)

end SyntaxTree

namespace Context

open TypeDerivation.Derivation Request

variable {c : Context} {id pat child : NodeId} {P : Request → Prop} {W : Ty → Prop} {s : Place}
  (ht : c.tree.Ordered) (hR : c.resolver.Within c.tree) (hP : ∀ r, r.Shallow c.tree → P r)
  (hW : Ty.Hereditary W)

include ht hR in
theorem meets_fieldsFor (pat : NodeId) (ty : Ty) :
    (c.fieldsFor pat ty).Meets P W fun o => ∀ ids ∈ o, ∀ x ∈ ids, x.index < c.tree.size := by
  rw [fieldsFor]
  split
  · exact .done (by simp)
  · rename_i decl hd
    apply (meets_kind (hR.reference hd)).bind
    intro k hk
    split
    · refine .done fun ids hids x hx => ht.child_lt_size hk ?_
      split at hids
      · cases hids
        exact List.mem_append_right _ hx
      · cases hids
    · refine .done fun ids hids x hx => ht.child_lt_size hk ?_
      split at hids
      · cases hids
        exact hx
      · cases hids
    · exact .done (by simp)

theorem meets_fieldNamed (n : Name) {ids : List NodeId}
    (h : ∀ x ∈ ids, x.index < c.tree.size) :
    (c.fieldNamed n ids).Meets P W fun o => ∀ x ∈ o, x.index < c.tree.size := by
  induction ids with
  | nil => exact .done (by simp)
  | cons id rest ih =>
    have hrest := ih fun x hx => h x (List.mem_cons_of_mem _ hx)
    rw [fieldNamed]
    apply (meets_kind (h id List.mem_cons_self)).bind
    intro k _
    split
    · split
      · apply Meets.done
        intro x hx
        cases hx
        exact h id List.mem_cons_self
      · exact hrest
    · exact hrest

include ht in
theorem meets_fieldTypeExpr (hid : id.index < c.tree.size) :
    (c.fieldTypeExpr id).Meets P W fun o => ∀ x ∈ o, x.index < c.tree.size := by
  rw [fieldTypeExpr]
  apply (meets_kind hid).bind
  intro k hk
  split
  · exact .done fun x hx =>
      ht.child_lt_size hk (by simpa [NodeKind.children, Decl.children] using hx)
  · refine .done fun x hx => ht.child_lt_size hk ?_
    cases hx
    simp [NodeKind.children, Decl.children]
  · exact .done (by simp)

include ht hP

theorem meets_enterField {o : Option NodeId} (ho : ∀ x ∈ o, x.index < c.tree.size) :
    (c.enterField s o).Meets P W fun o => ∀ s ∈ o, W s.ty := by
  cases o with
  | none => exact .done (by simp)
  | some id =>
    rw [enterField]
    apply (meets_fieldTypeExpr ht (ho id rfl)).bind
    intro o hw
    split
    · exact .done (by simp)
    · rename_i written
      apply (Meets.request (hP _ (shallow_typeExpr (hw written rfl)))).bind
      intro ty hty
      apply Meets.done
      intro s' hs'
      cases hs'
      exact hty

include hR

theorem meets_enterNamed (fields : List FieldPat) :
    (c.enterNamed pat child fields s).Meets P W fun o => ∀ s ∈ o, W s.ty := by
  rw [enterNamed]
  split
  · exact .done (by simp)
  · apply (meets_fieldsFor ht hR pat s.ty).bind
    intro o ho
    split
    · exact .done (by simp)
    · rename_i ids
      exact (meets_fieldNamed _ (ho ids rfl)).bind fun o ho => meets_enterField ht hP ho

theorem meets_enterPositional (elems : List NodeId) :
    (c.enterPositional pat child elems s).Meets P W fun o => ∀ s ∈ o, W s.ty := by
  rw [enterPositional]
  split
  · exact .done (by simp)
  · apply (meets_fieldsFor ht hR pat s.ty).bind
    intro o ho
    split
    · exact .done (by simp)
    · rename_i ids
      exact meets_enterField ht hP fun x hx => ho ids rfl x (List.mem_of_getElem? hx)

include hW

omit ht hR hP in
/-- The place of a child among the entries of its pattern is one of the tuple, since there are as
many entries as types. -/
theorem meets_enterEntry {index : Nat} {elems : List NodeId} (hs : W s.ty)
    (hi : elems.findIdx? (· = child) = some index) :
    (enterEntry s elems.length index).Meets P W fun o => ∀ s ∈ o, W s.ty := by
  have hlt : index < elems.length := (List.findIdx?_eq_some_iff_findIdx_eq.mp hi).1
  rw [enterEntry]
  split
  · rename_i tys he
    split
    · rename_i hlen
      rw [List.getElem?_eq_getElem (hlen ▸ hlt)]
      apply Meets.done
      intro s' hs'
      cases hs'
      rw [he] at hs
      exact hW.elem hs _ (List.getElem_mem _)
    · exact .done (by simp)
  · exact .done (by simp)

theorem meets_descend (hpat : pat.index < c.tree.size) (hs : W s.ty) :
    (c.descend pat child s).Meets P W fun o => ∀ s ∈ o, W s.ty := by
  rw [descend]
  apply (meets_kind hpat).bind
  intro k hk
  split
  · apply Meets.done
    intro s' hs'
    split at hs'
    · cases hs'
      exact hs
    · cases hs'
  · apply Meets.done
    intro s' hs'
    split at hs'
    · exact hW.referred hs hs'
    · cases hs'
  · split
    · exact .done (by simp)
    · rename_i hi
      exact meets_enterEntry hW (hW.opened hs) hi
  · exact meets_enterNamed ht hR hP _
  · exact meets_enterPositional ht hR hP _
  · exact .done (by simp)

theorem meets_descendAll {chain : List NodeId} (hc : ∀ x ∈ chain, x.index < c.tree.size)
    (hs : W s.ty) : (c.descendAll chain s).Meets P W fun o => ∀ s ∈ o, W s.ty := by
  induction chain generalizing s with
  | nil =>
    apply Meets.done
    intro s' hs'
    cases hs'
    exact hs
  | cons pat rest ih =>
    cases rest with
    | nil =>
      apply Meets.done
      intro s' hs'
      cases hs'
      exact hs
    | cons child rest =>
      rw [descendAll]
      apply (meets_descend ht hR hP hW (hc pat List.mem_cons_self) hs).bind
      intro o ho
      split
      · exact .done (by simp)
      · rename_i s'
        exact ih (fun x hx => hc x (List.mem_cons_of_mem _ hx)) (ho s' rfl)

omit ht hR hP in
theorem meets_bindingAt (hid : id.index < c.tree.size) (hs : W s.ty) :
    (c.bindingAt id s).Meets P W W := by
  rw [bindingAt]
  apply (meets_kind hid).bind
  intro k _
  split
  · exact .done (hW.bound hs _ _)
  · exact .done hW.unknown

theorem meets_infer (i : Inference) (hid : id.index < c.tree.size) (top : NodeId) {ty : Ty}
    (hty : W ty) : (c.infer i id top ty).Meets P W W := by
  cases i with
  | identity => exact .done hty
  | structural =>
    rw [infer, inferStructural]
    split
    · exact .done hW.unknown
    · have hchain (x : NodeId) (hx : x ∈ (c.tree.patsAbove id).reverse ++ [id]) :
          x.index < c.tree.size := by
        rcases List.mem_append.mp hx with hx | hx
        · exact SyntaxTree.lt_of_mem_patsAbove (List.mem_reverse.mp hx)
        · rw [List.mem_singleton.mp hx]
          exact hid
      refine (meets_descendAll ht hR hP hW hchain (s := ⟨ty, none⟩) hty).bind fun o ho => ?_
      split
      · exact .done hW.unknown
      · rename_i s
        exact meets_bindingAt hW hid (ho s rfl)

end Context

end TypeDerivation
