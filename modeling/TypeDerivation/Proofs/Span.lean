import TypeDerivation.Span

/-!
Stretches as sets of offsets. The hull of some stretches is the least one that covers all of them,
so empty stretches do not count.
-/

namespace TypeDerivation.Span

/-- Every offset of the inner stretch is one of the outer. -/
def Covers (outer inner : Span) : Prop :=
  ∀ offset, inner.contains offset = true → outer.contains offset = true

variable {outer a b c s : Span} {spans : List Span}

theorem Covers.refl (s : Span) : s.Covers s := fun _ h => h

theorem Covers.trans (hab : a.Covers b) (hbc : b.Covers c) : a.Covers c :=
  fun offset h => hab offset (hbc offset h)

theorem not_isEmpty_iff : s.isEmpty = false ↔ s.start < s.stop := by
  simp [isEmpty]

theorem covers_of_isEmpty (h : s.isEmpty = true) : outer.Covers s := by
  intro offset ho
  rw [isEmpty_iff] at h
  rw [contains_iff] at ho
  omega

theorem covers_iff (h : s.isEmpty = false) :
    outer.Covers s ↔ outer.start ≤ s.start ∧ s.stop ≤ outer.stop := by
  rw [not_isEmpty_iff] at h
  constructor
  · intro hc
    have hfirst := hc s.start (contains_iff.mpr ⟨Nat.le_refl _, h⟩)
    have hlast := hc (s.stop - 1) (contains_iff.mpr (by omega))
    rw [contains_iff] at hfirst hlast
    omega
  · intro hends offset ho
    rw [contains_iff] at ho ⊢
    omega

theorem Covers.length_le (h : outer.Covers s) : s.length ≤ outer.length := by
  cases hs : s.isEmpty with
  | true =>
    rw [isEmpty_iff] at hs
    simp only [length]
    omega
  | false =>
    rw [covers_iff hs] at h
    simp only [length]
    omega

theorem overlap_of_contains {offset : Nat} (ha : a.contains offset = true)
    (hb : b.contains offset = true) : max a.start b.start < min a.stop b.stop := by
  rw [contains_iff] at ha hb
  omega

theorem isEmpty_merge (ha : a.isEmpty = false) : (a.merge b).isEmpty = false := by
  rw [not_isEmpty_iff] at ha ⊢
  simp only [merge]
  omega

theorem covers_merge_iff (ha : a.isEmpty = false) (hb : b.isEmpty = false) :
    outer.Covers (a.merge b) ↔ outer.Covers a ∧ outer.Covers b := by
  rw [covers_iff (isEmpty_merge ha), covers_iff ha, covers_iff hb]
  simp only [merge]
  omega

theorem covers_foldl_merge_iff (hs : s.isEmpty = false) (h : ∀ x ∈ spans, x.isEmpty = false) :
    outer.Covers (spans.foldl merge s) ↔ outer.Covers s ∧ ∀ x ∈ spans, outer.Covers x := by
  induction spans generalizing s with
  | nil => simp
  | cons x rest ih =>
    have hx := h x List.mem_cons_self
    have hrest := fun y hy => h y (List.mem_cons_of_mem _ hy)
    rw [List.foldl_cons, ih (isEmpty_merge hs) hrest, covers_merge_iff hs hx, and_assoc,
      List.forall_mem_cons]

theorem covers_hull_iff : outer.Covers (hull spans) ↔ ∀ s ∈ spans, outer.Covers s := by
  -- only the stretches that are kept can ask anything of the outer one
  have hkept : (∀ s ∈ spans, outer.Covers s) ↔
      ∀ s ∈ spans.filter (!·.isEmpty), outer.Covers s := by
    constructor
    · intro h s hs
      exact h s (List.mem_filter.mp hs).1
    · intro h s hs
      cases he : s.isEmpty with
      | true => exact covers_of_isEmpty he
      | false => exact h s (List.mem_filter.mpr ⟨hs, by simp [he]⟩)
  have hfull : ∀ s ∈ spans.filter (!·.isEmpty), s.isEmpty = false := by
    intro s hs
    simpa using (List.mem_filter.mp hs).2
  rw [hkept, hull]
  cases hf : spans.filter (!·.isEmpty) with
  | nil => simp [covers_of_isEmpty (s := dummy) rfl]
  | cons s rest =>
    rw [hf] at hfull
    have hs := hfull s List.mem_cons_self
    have hrest := fun x hx => hfull x (List.mem_cons_of_mem _ hx)
    rw [List.forall_mem_cons]
    exact covers_foldl_merge_iff hs hrest

theorem hull_covers (hs : s ∈ spans) : (hull spans).Covers s := covers_hull_iff.mp (.refl _) s hs

theorem hull_eq_dummy (h : ∀ s ∈ spans, s.isEmpty = true) : hull spans = dummy := by
  have hnone : spans.filter (!·.isEmpty) = [] := by
    rw [List.filter_eq_nil_iff]
    intro s hs
    simp [h s hs]
  rw [hull, hnone]

end TypeDerivation.Span
