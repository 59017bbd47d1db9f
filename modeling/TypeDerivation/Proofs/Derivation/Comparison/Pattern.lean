import TypeDerivation.Proofs.Derivation.Comparison

namespace TypeDerivation.Context

open TypeDerivation.Derivation Place

variable {c : Context} {R' : Resolver} {reply reply' : Replies} {id pat child : NodeId}
  {s s' : Place}

theorem related_fieldNamed (n : Name) (ids : List NodeId) :
    Related reply reply' (fun o o' => o = o') (c.fieldNamed n ids)
      ((c.withResolver R').fieldNamed n ids) := by
  induction ids with
  | nil => exact .done rfl
  | cons x rest ih =>
    refine related_kind fun k _ => ?_
    split
    · split
      · exact .done rfl
      · exact ih
    · exact ih

theorem related_fieldTypeExpr (id : NodeId) :
    Related reply reply' (fun o o' => o = o') (c.fieldTypeExpr id)
      ((c.withResolver R').fieldTypeExpr id) := by
  refine related_kind fun k _ => ?_
  split
  · exact .done rfl
  · exact .done rfl
  · exact .done rfl

theorem related_enterEntry (hs : s.ty = .unknown ∨ s.Blurs s') (arity index : Nat) :
    Related reply reply' Ahead (enterEntry s arity index) (enterEntry s' arity index) := by
  rw [enterEntry]
  split
  · rename_i tys he
    have hs := hs.resolve_left (by simp [he])
    obtain ⟨tys', he', htys⟩ := (he ▸ hs.ty).of_tuple
    rw [enterEntry, he']
    dsimp only
    rw [← htys.length_eq]
    split
    · cases ha : tys[index]? with
      | none =>
        intro a b h _
        cases h
      | some ty =>
        obtain ⟨ty', hty', hle⟩ := htys.getElem? ha
        rw [hty']
        exact .done (Blurs.ahead ⟨hs.mode, hle⟩)
    · exact .absent _
  · exact .absent _

theorem related_bindingAt (hs : s.Blurs s') (id : NodeId) :
    Related reply reply' Ty.Blurs (c.bindingAt id s) ((c.withResolver R').bindingAt id s') := by
  refine related_kind fun k _ => ?_
  split
  · exact .done (hs.bound _ _)
  · exact .unknown _

namespace Improves

variable (h : c.Improves R' reply reply')
include h

theorem fieldsFor (hpat : pat.index < c.tree.size) {ty ty' : Ty}
    (hty : ty = .unknown ∨ ty.Blurs ty') :
    Related reply reply' (fun o o' => ∀ ids ∈ o, o' = some ids ∧ ty ≠ .unknown)
      (c.fieldsFor pat ty) ((c.withResolver R').fieldsFor pat ty') := by
  rw [Context.fieldsFor, Context.fieldsFor]
  have hnone (d : Derivation (Option (List NodeId))) :
      Related reply reply' (fun o o' => ∀ ids ∈ o, o' = some ids ∧ ty ≠ .unknown)
        (Derivation.done none) d := by
    intro o o' ho _
    cases ho
    simp
  rcases h.declOf?_cases hpat with hd | ⟨decl, hd, hd'⟩
  · rw [hd]
    exact hnone _
  · rw [hd, hd']
    refine related_kind fun k _ => ?_
    split
    · cases (hty.resolve_left (by simp)).of_struct
      exact .done fun ids hids => ⟨hids, by simp⟩
    · cases (hty.resolve_left (by simp)).of_enum
      exact .done fun ids hids => ⟨hids, by simp⟩
    · exact hnone _

theorem enterField (hs : s.Blurs s') (o : Option NodeId) :
    Related reply reply' Ahead (c.enterField s o) ((c.withResolver R').enterField s' o) := by
  cases o with
  | none => exact .absent _
  | some id =>
    refine (related_fieldTypeExpr id).bind fun o o' ho => ?_
    subst ho
    cases o with
    | none => exact .absent _
    | some written => exact (h.request _).bind fun a b hab => .done (Blurs.ahead ⟨hs.mode, hab⟩)

variable (hpat : pat.index < c.tree.size)
include hpat

theorem enterNamed (hs : s.ty = .unknown ∨ s.Blurs s') (fields : List FieldPat) :
    Related reply reply' Ahead (c.enterNamed pat child fields s)
      ((c.withResolver R').enterNamed pat child fields s') := by
  rw [Context.enterNamed, Context.enterNamed]
  cases fields.find? (·.pat = child) with
  | none => exact .absent _
  | some f =>
    refine (h.fieldsFor hpat (hs.imp_right Blurs.ty)).bind fun o o' ho => ?_
    cases o with
    | none => exact .absent _
    | some ids =>
      obtain ⟨rfl, hne⟩ := ho ids rfl
      refine (related_fieldNamed f.name ids).bind fun o o' ho => ?_
      subst ho
      exact h.enterField (hs.resolve_left hne) o

theorem enterPositional (hs : s.ty = .unknown ∨ s.Blurs s') (elems : List NodeId) :
    Related reply reply' Ahead (c.enterPositional pat child elems s)
      ((c.withResolver R').enterPositional pat child elems s') := by
  rw [Context.enterPositional, Context.enterPositional]
  cases elems.findIdx? (· = child) with
  | none => exact .absent _
  | some index =>
    refine (h.fieldsFor hpat (hs.imp_right Blurs.ty)).bind fun o o' ho => ?_
    cases o with
    | none => exact .absent _
    | some ids =>
      obtain ⟨rfl, hne⟩ := ho ids rfl
      exact h.enterField (hs.resolve_left hne) _

omit hpat

theorem descend (hs : s.Blurs s') (pat child : NodeId) :
    Related reply reply' Ahead (c.descend pat child s)
      ((c.withResolver R').descend pat child s') := by
  refine related_kind fun k hk => ?_
  have hpat := SyntaxTree.lt_of_kind? hk
  split
  · refine .done ?_
    split
    · exact hs.ahead
    · exact ahead_none
  · refine .done ?_
    split
    · exact hs.referred
    · exact ahead_none
  · rename_i elems
    cases elems.findIdx? (· = child) with
    | none => exact .absent _
    | some index => exact related_enterEntry hs.opened _ _
  · exact h.enterNamed hpat hs.opened _
  · exact h.enterPositional hpat hs.opened _
  · exact .absent _

theorem descendAll (hs : s.Blurs s') (chain : List NodeId) :
    Related reply reply' Ahead (c.descendAll chain s)
      ((c.withResolver R').descendAll chain s') := by
  induction chain generalizing s s' with
  | nil => exact .done hs.ahead
  | cons pat rest ih =>
    cases rest with
    | nil => exact .done hs.ahead
    | cons child rest =>
      rw [Context.descendAll, Context.descendAll]
      refine (h.descend hs pat child).bind fun o o' ho => ?_
      cases o with
      | none => exact .absent _
      | some inner =>
        obtain ⟨inner', rfl, hi⟩ := ho inner rfl
        exact ih hi

theorem infer (i : Inference) (id top : NodeId) {ty ty' : Ty} (hty : ty.Blurs ty') :
    Related reply reply' Ty.Blurs (c.infer i id top ty)
      ((c.withResolver R').infer i id top ty') := by
  cases i with
  | identity => exact .done hty
  | structural =>
    rw [Context.infer, Context.infer, inferStructural, inferStructural]
    by_cases hc : id ≠ top ∧ (c.tree.patsAbove id).getLast? ≠ some top
    · rw [if_pos hc]
      exact .unknown _
    · have hc' : ¬(id ≠ top ∧ ((c.withResolver R').tree.patsAbove id).getLast? ≠ some top) := hc
      rw [if_neg hc, if_neg hc']
      have hstart : Place.Blurs ⟨ty, none⟩ ⟨ty', none⟩ := ⟨rfl, hty⟩
      refine (h.descendAll hstart _).bind fun o o' ho => ?_
      cases o with
      | none => exact .unknown _
      | some s =>
        obtain ⟨s', rfl, hs⟩ := ho s rfl
        exact related_bindingAt hs id

end Improves

end TypeDerivation.Context
