import TypeDerivation.Name

/-!
A table of names: each number was given to one text, and the texts that a table has keep their
numbers while others get theirs.
-/

namespace TypeDerivation

namespace NameTable

/-- Every text that has a name stands in the place of its name, and nowhere else. -/
def Sound (t : NameTable) : Prop := ∀ s n, t.get? s = some n ↔ t.texts[n.raw]? = some s

variable {t : NameTable} {s : String} {m n : Name}

theorem sound_blank : blank.Sound := by
  intro s n
  simp [blank, get?]

theorem Sound.intern (h : t.Sound) (s : String) : (t.intern s).2.Sound := by
  cases hs : t.get? s with
  | some n =>
    rw [intern_of_get? hs]
    exact h
  | none =>
    rw [intern_of_get?_eq_none hs]
    intro s' n
    have hold : t.get? s' = some n ↔ t.texts[n.raw]? = some s' := h s' n
    rw [get?, Std.TreeMap.getElem?_insert, Array.getElem?_push]
    change _ ↔ (if n.raw = t.size then _ else _) = _
    by_cases hn : n.raw = t.size
    · have hnone : t.texts[n.raw]? = none := Array.getElem?_eq_none (Nat.le_of_eq hn.symm)
      have heq : n = ⟨t.size⟩ := by rw [← hn]
      subst heq
      by_cases he : s = s'
      · simp [he]
      · rw [hnone] at hold
        simpa [he, get?] using hold
    · have hne : (⟨t.size⟩ : Name) ≠ n := fun heq => hn (congrArg Name.raw heq).symm
      by_cases he : s = s'
      · subst he
        rw [hs] at hold
        simpa [hn, hne] using hold
      · simpa [hn, he, get?] using hold

theorem Sound.internAll (h : t.Sound) (ss : List String) : (t.internAll ss).2.Sound := by
  induction ss generalizing t with
  | nil => exact h
  | cons s rest ih => exact ih (h.intern s)

theorem Sound.text_inj (h : t.Sound) (hm : m.raw < t.size) (hn : n.raw < t.size)
    (he : t.text m = t.text n) : m = n := by
  rw [text, text, Array.getElem?_eq_getElem hm, Array.getElem?_eq_getElem hn] at he
  have hm' := (h _ m).mpr (Array.getElem?_eq_getElem hm)
  have hn' := (h _ n).mpr (Array.getElem?_eq_getElem hn)
  simp only [Option.getD_some] at he
  rw [he, hn'] at hm'
  exact (Option.some.inj hm').symm

theorem text_eq (h : t.texts[n.raw]? = some s) : t.text n = s := by
  rw [text, h]
  rfl

/-- The texts of one table have the same numbers in the other. -/
def Retains (t' t : NameTable) : Prop :=
  ∀ ⦃i : Nat⦄ ⦃s : String⦄, t.texts[i]? = some s → t'.texts[i]? = some s

theorem Retains.refl (t : NameTable) : t.Retains t := fun _ _ h => h

theorem Retains.trans {t₁ t₂ t₃ : NameTable} (h : t₃.Retains t₂) (h' : t₂.Retains t₁) :
    t₃.Retains t₁ := fun _ _ hi => h (h' hi)

theorem Retains.size_le {t' : NameTable} (h : t'.Retains t) : t.size ≤ t'.size := by
  apply Nat.le_of_not_lt
  intro hlt
  obtain ⟨hself, -⟩ := Array.getElem?_eq_some_iff.mp (h (Array.getElem?_eq_getElem hlt))
  exact Nat.lt_irrefl _ hself

theorem Retains.text_eq {t' : NameTable} (h : t'.Retains t) (hn : n.raw < t.size) :
    t'.text n = t.text n := by
  rw [text, text, h (Array.getElem?_eq_getElem hn), Array.getElem?_eq_getElem hn]

theorem retains_intern (t : NameTable) (s : String) : (t.intern s).2.Retains t := by
  intro i s' h
  cases hs : t.get? s with
  | some n => rwa [intern_of_get? hs]
  | none =>
    obtain ⟨hi, -⟩ := Array.getElem?_eq_some_iff.mp h
    rw [intern_of_get?_eq_none hs, Array.getElem?_push, if_neg (Nat.ne_of_lt hi), h]

theorem retains_internAll (t : NameTable) (ss : List String) : (t.internAll ss).2.Retains t := by
  induction ss generalizing t with
  | nil => exact .refl t
  | cons s rest ih => exact (ih (t.intern s).2).trans (t.retains_intern s)

theorem Sound.texts_intern (h : t.Sound) (s : String) :
    (t.intern s).2.texts[(t.intern s).1.raw]? = some s :=
  (h.intern s s _).mp get?_intern_self

theorem Sound.texts_internAll {t' : NameTable} (h : t.Sound) (ss : List String)
    (ht' : t'.Retains (t.internAll ss).2) :
    (t.internAll ss).1.map (fun n => t'.texts[n.raw]?) = ss.map some := by
  induction ss generalizing t with
  | nil => rfl
  | cons s rest ih =>
    have hs := ht' (retains_internAll _ rest (h.texts_intern s))
    exact List.cons_eq_cons.mpr ⟨hs, ih (h.intern s) ht'⟩

theorem Sound.text_internAll {t' : NameTable} (h : t.Sound) (ss : List String)
    (ht' : t'.Retains (t.internAll ss).2) : (t.internAll ss).1.map t'.text = ss := by
  have htexts := congrArg (List.map (Option.getD · "")) (h.texts_internAll ss ht')
  rw [List.map_map, List.map_map] at htexts
  exact htexts.trans (List.map_id ss)

theorem Sound.exists_text_of_mem {t' : NameTable} (h : t.Sound) {ss : List String}
    (ht' : t'.Retains (t.internAll ss).2) (hn : n ∈ (t.internAll ss).1) :
    ∃ s ∈ ss, t'.texts[n.raw]? = some s := by
  have hmem := List.mem_map_of_mem (f := fun n => t'.texts[n.raw]?) hn
  rw [h.texts_internAll ss ht', List.mem_map] at hmem
  obtain ⟨s, hs, heq⟩ := hmem
  exact ⟨s, hs, heq.symm⟩

theorem internAll_of_get? {ns : List Name} (h : ∀ n ∈ ns, t.get? (t.text n) = some n) :
    t.internAll (ns.map t.text) = (ns, t) := by
  induction ns with
  | nil => rfl
  | cons n rest ih =>
    obtain ⟨hn, hrest⟩ := List.forall_mem_cons.mp h
    rw [List.map_cons, internAll, intern_of_get? hn]
    dsimp only
    rw [ih hrest]

theorem internAll_eq_self {ss : List String} (h : ∀ s ∈ ss, (t.get? s).isSome = true) :
    (t.internAll ss).2 = t := by
  induction ss with
  | nil => rfl
  | cons s rest ih =>
    obtain ⟨hs, hrest⟩ := List.forall_mem_cons.mp h
    obtain ⟨n, hn⟩ := Option.isSome_iff_exists.mp hs
    rw [internAll, intern_of_get? hn]
    exact ih hrest

theorem get?_intern_isSome (t : NameTable) (s s' : String) :
    ((t.intern s).2.get? s').isSome = true ↔ (t.get? s').isSome = true ∨ s' = s := by
  cases hs : t.get? s with
  | some n =>
    rw [intern_of_get? hs]
    refine (or_iff_left_of_imp ?_).symm
    rintro rfl
    rw [hs]
    rfl
  | none =>
    rw [intern_of_get?_eq_none hs, get?, Std.TreeMap.getElem?_insert]
    by_cases he : s = s'
    · simp [he]
    · simp [he, Ne.symm he, get?]

theorem get?_internAll_isSome (t : NameTable) (ss : List String) (s : String) :
    ((t.internAll ss).2.get? s).isSome = true ↔ (t.get? s).isSome = true ∨ s ∈ ss := by
  induction ss generalizing t with
  | nil => simp [internAll]
  | cons s' rest ih =>
    rw [internAll]
    dsimp only
    rw [ih, get?_intern_isSome, List.mem_cons, or_assoc]

end NameTable

end TypeDerivation
