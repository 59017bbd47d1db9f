import TypeDerivation.Tree.Cover

/-!
The node that is picked at an offset: the shortest of those that cover it, and of equally short
ones the first.
-/

namespace TypeDerivation.SyntaxTree

/-- The first node is picked rather than the second one. -/
def Preferred (t : SyntaxTree) (a b : NodeId) : Prop :=
  (t.span a).length < (t.span b).length ∨
    (t.span a).length = (t.span b).length ∧ a.index ≤ b.index

variable {t : SyntaxTree} {id a b x : NodeId} {ids : List NodeId}
  {p : NodeKind → Bool} {offset : Nat}

theorem preferred_refl (a : NodeId) : t.Preferred a a := .inr ⟨rfl, Nat.le_refl _⟩

theorem Preferred.trans (hab : t.Preferred a b) (hbx : t.Preferred b x) : t.Preferred a x := by
  simp only [Preferred] at *
  omega

theorem Preferred.antisymm (hab : t.Preferred a b) (hba : t.Preferred b a) : a = b := by
  apply NodeId.index_inj.mp
  simp only [Preferred] at *
  omega

theorem covers_iff : t.covers p offset id = true ↔
    t.holds p id = true ∧ (t.span id).contains offset = true := by
  rw [covers, holds, kind?, span]
  cases t.get? id <;> simp [and_comm]

/-- What is picked in one pass through nodes in their order is one of them and preferred to all. -/
theorem foldl_narrower (h : (b :: ids).Pairwise fun a b => a.index < b.index) :
    ∃ id ∈ b :: ids, ids.foldl t.narrower (some b) = some id ∧ ∀ x ∈ b :: ids, t.Preferred id x := by
  induction ids generalizing b with
  | nil => exact ⟨b, List.mem_cons_self, rfl, by simp [preferred_refl]⟩
  | cons x rest ih =>
    obtain ⟨hb, hrest⟩ := List.pairwise_cons.mp h
    obtain ⟨hbx, hb⟩ := List.forall_mem_cons.mp hb
    by_cases hs : (t.span x).length < (t.span b).length
    · obtain ⟨id, hmem, hid, hall⟩ := ih hrest
      refine ⟨id, List.mem_cons_of_mem _ hmem, ?_, ?_⟩
      · rw [List.foldl_cons, narrower, if_pos hs, hid]
      · have hxb : t.Preferred x b := .inl hs
        exact List.forall_mem_cons.mpr ⟨(hall x List.mem_cons_self).trans hxb, hall⟩
    · obtain ⟨id, hmem, hid, hall⟩ := ih (List.pairwise_cons.mpr ⟨hb, (List.pairwise_cons.mp hrest).2⟩)
      obtain ⟨hidb, hidrest⟩ := List.forall_mem_cons.mp hall
      refine ⟨id, ?_, ?_, ?_⟩
      · exact List.cons_subset_cons b (List.subset_cons_self x rest) hmem
      · rw [List.foldl_cons, narrower, if_neg hs, hid]
      · have hbx : t.Preferred b x := by
          simp only [Preferred]
          omega
        exact List.forall_mem_cons.mpr ⟨hidb, List.forall_mem_cons.mpr ⟨hidb.trans hbx, hidrest⟩⟩

theorem pairwise_ids (t : SyntaxTree) : t.ids.Pairwise fun a b => a.index < b.index :=
  List.pairwise_map.mpr List.pairwise_lt_range

theorem mem_filter_covers_iff : x ∈ t.ids.filter (t.covers p offset) ↔ t.covers p offset x = true := by
  rw [List.mem_filter, and_iff_right_iff_imp, mem_ids_iff]
  intro h
  rw [covers, Option.any_eq_true] at h
  obtain ⟨n, hn, -⟩ := h
  exact get?_isSome_iff.mp (by rw [hn]; rfl)

theorem nodeAtOffset?_cases (t : SyntaxTree) (p : NodeKind → Bool) (offset : Nat) :
    (t.nodeAtOffset? p offset = none ∧ ∀ x, t.covers p offset x = false) ∨
    ∃ id, t.nodeAtOffset? p offset = some id ∧ t.covers p offset id = true ∧
      ∀ x, t.covers p offset x = true → t.Preferred id x := by
  have hsorted := t.pairwise_ids.filter (t.covers p offset)
  rw [nodeAtOffset?]
  simp only [← Bool.not_eq_true, ← mem_filter_covers_iff]
  cases hl : t.ids.filter (t.covers p offset) with
  | nil => exact .inl ⟨rfl, by simp⟩
  | cons b rest =>
    obtain ⟨id, hmem, hid, hall⟩ := foldl_narrower (t := t) (hl ▸ hsorted)
    exact .inr ⟨id, hid, hmem, hall⟩

theorem nodeAtOffset?_eq_none_iff :
    t.nodeAtOffset? p offset = none ↔ ∀ x, t.covers p offset x = false := by
  rcases t.nodeAtOffset?_cases p offset with ⟨hnone, hall⟩ | ⟨id, hid, hcovers, -⟩
  · exact iff_of_true hnone hall
  · refine iff_of_false (by simp [hid]) ?_
    intro h
    rw [h id] at hcovers
    cases hcovers

theorem nodeAtOffset?_eq_some_iff : t.nodeAtOffset? p offset = some id ↔
    t.covers p offset id = true ∧ ∀ x, t.covers p offset x = true → t.Preferred id x := by
  rcases t.nodeAtOffset?_cases p offset with ⟨hnone, hall⟩ | ⟨a, ha, hcovers, hpreferred⟩
  · simp [hnone, hall id]
  · rw [ha, Option.some_inj]
    constructor
    · rintro rfl
      exact ⟨hcovers, hpreferred⟩
    · rintro ⟨hid, hid'⟩
      exact (hpreferred id hid).antisymm (hid' a hcovers)

theorem lt_of_nodeAtOffset? (h : t.nodeAtOffset? p offset = some id) : id.index < t.size := by
  have hmem := mem_filter_covers_iff.mpr (nodeAtOffset?_eq_some_iff.mp h).1
  exact mem_ids_iff.mp (List.mem_filter.mp hmem).1

end TypeDerivation.SyntaxTree
