import TypeDerivation.Tree.Building

namespace TypeDerivation.SyntaxTree

variable {t t' : SyntaxTree} {id child parent : NodeId} {kind : NodeKind} {span : Span}

theorem getElem?_linked (parent : NodeId) (children : List NodeId) (nodes : Array Node) (i : Nat) :
    (children.foldl (fun nodes c => nodes.modify c.index ({ · with parent := some parent }))
      nodes)[i]? =
      nodes[i]?.map fun n => if ⟨i⟩ ∈ children then { n with parent := some parent } else n := by
  induction children generalizing nodes with
  | nil => simp
  | cons c rest ih =>
    rw [List.foldl_cons, ih, Array.getElem?_modify]
    by_cases hc : c.index = i
    · subst hc
      cases nodes[c.index]? with
      | none => simp
      | some n => by_cases hr : c ∈ rest <;> simp [hr]
    · have hne : (⟨i⟩ : NodeId) ≠ c := fun h => hc (by rw [← h])
      simp [hc, hne]

theorem size_linked (parent : NodeId) (children : List NodeId) (nodes : Array Node) :
    (children.foldl (fun nodes c => nodes.modify c.index ({ · with parent := some parent }))
      nodes).size = nodes.size := by
  induction children generalizing nodes with
  | nil => rfl
  | cons c rest ih => rw [List.foldl_cons, ih, Array.size_modify]

theorem get?_addAt (h : t.addAt kind span = .ok (id, t')) (x : NodeId) :
    t'.get? x = if x = ⟨t.size⟩ then some ⟨kind, span, none⟩
      else (t.get? x).map fun n =>
        if x ∈ kind.children then { n with parent := some ⟨t.size⟩ } else n := by
  rw [addAt] at h
  split at h
  · cases h
  · cases h
    have hsize : (t.linked ⟨t.size⟩ kind.children).size = t.size := size_linked _ _ _
    rw [get?, Array.getElem?_push, hsize]
    by_cases hx : x = ⟨t.size⟩
    · simp [hx]
    · have hi : x.index ≠ t.size := fun h => hx (NodeId.index_inj.mp h)
      rw [if_neg hi, if_neg hx]
      exact getElem?_linked _ _ _ _

theorem addAt_id (h : t.addAt kind span = .ok (id, t')) : id = ⟨t.size⟩ := by
  rw [addAt] at h
  split at h <;> cases h
  rfl

theorem size_addAt (h : t.addAt kind span = .ok (id, t')) : t'.size = t.size + 1 := by
  rw [addAt] at h
  split at h <;> cases h
  simp only [size, Array.size_push, linked, size_linked]

theorem names_addAt (h : t.addAt kind span = .ok (id, t')) : t'.names = t.names := by
  rw [addAt] at h
  split at h <;> cases h
  rfl

theorem lt_of_kind? (h : t.kind? id = some kind) : id.index < t.size := by
  obtain ⟨n, hn, -⟩ := Option.map_eq_some_iff.mp h
  exact get?_isSome_iff.mp (by rw [hn]; rfl)

theorem kind?_of_lt (h : id.index < t.size) : ∃ kind, t.kind? id = some kind := by
  obtain ⟨n, hn⟩ := Option.isSome_iff_exists.mp (get?_isSome_iff.mpr h)
  exact ⟨n.kind, by rw [kind?, hn]; rfl⟩

theorem free_of_addAt (h : t.addAt kind span = .ok (id, t')) (hc : child ∈ kind.children) :
    ∃ n, t.get? child = some n ∧ n.parent = none := by
  rw [addAt] at h
  split at h
  · cases h
  · rename_i hnone
    have he := List.findSome?_eq_none_iff.mp hnone child hc
    rw [childError?] at he
    split at he
    · cases he
    · rename_i n hn
      exact ⟨n, hn, by simpa using he⟩

theorem lt_of_addAt (h : t.addAt kind span = .ok (id, t')) (hc : child ∈ kind.children) :
    child.index < t.size := by
  obtain ⟨n, hn, -⟩ := free_of_addAt h hc
  exact get?_isSome_iff.mp (by rw [hn]; rfl)

theorem kind?_addAt (h : t.addAt kind span = .ok (id, t')) (x : NodeId) :
    t'.kind? x = if x = ⟨t.size⟩ then some kind else t.kind? x := by
  rw [kind?, get?_addAt h]
  split
  · rfl
  · rw [Option.map_map, kind?]
    congr 1
    funext n
    by_cases hx : x ∈ kind.children <;> simp [hx]

theorem lt_of_parent? (h : t.parent? child = some parent) : child.index < t.size := by
  obtain ⟨n, hn, -⟩ := Option.bind_eq_some_iff.mp h
  exact get?_isSome_iff.mp (by rw [hn]; rfl)

theorem span_addAt (h : t.addAt kind span = .ok (id, t')) (x : NodeId) :
    t'.span x = if x = ⟨t.size⟩ then span else t.span x := by
  rw [SyntaxTree.span, get?_addAt h]
  by_cases hx : x = ⟨t.size⟩
  · rw [if_pos hx, if_pos hx]
    rfl
  · rw [if_neg hx, if_neg hx, SyntaxTree.span]
    cases t.get? x with
    | none => rfl
    | some n => by_cases hc : x ∈ kind.children <;> simp [hc]

theorem parent?_addAt (h : t.addAt kind span = .ok (id, t')) (x : NodeId) :
    t'.parent? x = if x ∈ kind.children then some ⟨t.size⟩ else t.parent? x := by
  rw [parent?, get?_addAt h]
  by_cases hx : x ∈ kind.children
  · obtain ⟨n, hn, -⟩ := free_of_addAt h hx
    have hne : x ≠ ⟨t.size⟩ := fun he => Nat.lt_irrefl _ (he ▸ lt_of_addAt h hx)
    simp [hx, hne, hn]
  · by_cases hnew : x = ⟨t.size⟩
    · have hnone : t.get? ⟨t.size⟩ = none := get?_eq_none_iff.mpr (Nat.le_refl _)
      rw [if_pos hnew, if_neg hx, hnew, parent?, hnone]
      rfl
    · simp [hx, hnew, parent?]

theorem get?_modify_span (x : NodeId) :
    ({ t with nodes := t.nodes.modify id.index ({ · with span := span }) } : SyntaxTree).get? x =
      (t.get? x).map fun n => if x = id then { n with span := span } else n := by
  rw [get?, Array.getElem?_modify]
  by_cases hx : id.index = x.index
  · have := NodeId.index_inj.mp hx
    subst this
    simp [get?]
  · have hne : x ≠ id := fun h => hx (by rw [h])
    simp [get?, hx, hne]

theorem kind?_modify_span (x : NodeId) :
    ({ t with nodes := t.nodes.modify id.index ({ · with span := span }) } : SyntaxTree).kind? x =
      t.kind? x := by
  rw [kind?, get?_modify_span, Option.map_map, kind?]
  congr 1
  funext n
  by_cases hx : x = id <;> simp [hx]

theorem span_modify_span {x : NodeId} (hx : x ≠ id) :
    ({ t with nodes := t.nodes.modify id.index ({ · with span := span }) } : SyntaxTree).span x =
      t.span x := by
  rw [SyntaxTree.span, get?_modify_span, SyntaxTree.span]
  cases t.get? x <;> simp [hx]

theorem parent?_modify_span (x : NodeId) :
    ({ t with nodes := t.nodes.modify id.index ({ · with span := span }) } : SyntaxTree).parent? x =
      t.parent? x := by
  rw [parent?, get?_modify_span, parent?]
  cases t.get? x with
  | none => rfl
  | some n => by_cases hx : x = id <;> simp [hx]

end TypeDerivation.SyntaxTree
