import TypeDerivation.Literal.Suffix
import TypeDerivation.Proofs.Text.Trimming

/-!
The suffix of a number. No suffix ends another one, so a text has at most one of them, and which is
looked for first does not matter.
-/

namespace TypeDerivation

namespace Numeral

/-- The text is the digits, then underscores that belong to neither part, then the suffix. -/
structure Parts (text digits suffix : String) : Prop where
  joined : ∃ n, text.toList = digits.toList ++ List.replicate n '_' ++ suffix.toList
  tight : digits.toList.getLast? ≠ some '_'
  numeric : ∃ c ∈ digits.toList, c.isDigit = true

/-- The text is split before the suffix that it has of those that are allowed, and it is left whole
if it has none. -/
structure SplitsBy (n : Numeral) (text : String) (allowed : NumericKind → Prop) : Prop where
  suffixed : ∀ digits k, n = ⟨digits, some k⟩ ↔ allowed k ∧ Parts text digits k.spelling
  plain : (∀ digits k, allowed k → ¬ Parts text digits k.spelling) → n = ⟨text, none⟩

variable {text digits digits' : String} {k k' : NumericKind} {cs stem stem' : List Char}
  {candidates candidates' : List NumericKind}

theorem mem_intSuffixes_iff : k ∈ intSuffixes ↔ ∃ i, k = .int i := by
  constructor
  · intro h
    rw [intSuffixes, List.mem_map] at h
    obtain ⟨i, -, rfl⟩ := h
    exact ⟨i, rfl⟩
  · rintro ⟨i, rfl⟩
    cases i <;> decide

theorem mem_floatSuffixes_iff : k ∈ floatSuffixes ↔ ∃ f, k = .float f := by
  constructor
  · intro h
    rw [floatSuffixes, List.mem_map] at h
    obtain ⟨f, -, rfl⟩ := h
    exact ⟨f, rfl⟩
  · rintro ⟨f, rfl⟩
    cases f <;> decide

theorem mem_suffixes (k : NumericKind) : k ∈ intSuffixes ++ floatSuffixes := by
  cases k with
  | int i => exact List.mem_append_left _ (mem_intSuffixes_iff.mpr ⟨i, rfl⟩)
  | float f => exact List.mem_append_right _ (mem_floatSuffixes_iff.mpr ⟨f, rfl⟩)

theorem eq_of_spelling_suffix (h : k.spelling.toList <:+ k'.spelling.toList) : k = k' := by
  have hall : ∀ k ∈ intSuffixes ++ floatSuffixes, ∀ k' ∈ intSuffixes ++ floatSuffixes,
      k.spelling.toList <:+ k'.spelling.toList → k = k' := by decide
  exact hall k (mem_suffixes k) k' (mem_suffixes k') h

theorem eq_of_ends (h : k.spelling.toList <:+ cs) (h' : k'.spelling.toList <:+ cs) : k = k' := by
  -- of two suffixes of one text the shorter ends the longer
  rcases List.suffix_or_suffix_of_suffix h h' with hs | hs
  · exact eq_of_spelling_suffix hs
  · exact (eq_of_spelling_suffix hs).symm

theorem stemBefore?_eq_some_iff : stemBefore? cs k = some stem ↔
    cs = stem ++ k.spelling.toList ∧ ∃ c ∈ stem, c.isDigit = true := by
  rw [stemBefore?, Option.filter_eq_some_iff, stem?_eq_some_iff, List.any_eq_true]

theorem parts_iff : Parts text digits k.spelling ↔
    ∃ stem, stemBefore? text.toList k = some stem ∧
      Text.dropTrailing (· == '_') stem = digits.toList := by
  constructor
  · rintro ⟨⟨n, hjoined⟩, htight, c, hc, hdigit⟩
    refine ⟨digits.toList ++ List.replicate n '_', ?_, ?_⟩
    · exact stemBefore?_eq_some_iff.mpr ⟨hjoined, c, List.mem_append_left _ hc, hdigit⟩
    · refine Text.dropTrailing_eq_iff.mpr ⟨?_, List.replicate n '_', ?_, rfl⟩
      · rintro c hc
        exact beq_eq_false_iff_ne.mpr fun he => htight (he ▸ hc)
      · intro c hc
        exact beq_iff_eq.mpr (List.eq_of_mem_replicate hc)
  · rintro ⟨stem, hstem, hdrop⟩
    obtain ⟨hjoined, c, hc, hdigit⟩ := stemBefore?_eq_some_iff.mp hstem
    obtain ⟨hlast, tail, htail, rfl⟩ := Text.dropTrailing_eq_iff.mp hdrop
    have hgap : tail = List.replicate tail.length '_' :=
      List.eq_replicate_of_mem fun c hc => beq_iff_eq.mp (htail c hc)
    refine ⟨⟨tail.length, ?_⟩, ?_, c, ?_, hdigit⟩
    · rw [← hgap, hjoined]
    · intro he
      cases hlast '_' he
    · -- the digit is not among the underscores
      rcases List.mem_append.mp hc with hc | hc
      · exact hc
      · rw [beq_iff_eq.mp (htail c hc)] at hdigit
        cases hdigit

theorem Parts.unique (h : Parts text digits k.spelling) (h' : Parts text digits' k'.spelling) :
    digits = digits' ∧ k = k' := by
  obtain ⟨stem, hstem, hdrop⟩ := parts_iff.mp h
  obtain ⟨stem', hstem', hdrop'⟩ := parts_iff.mp h'
  have hk : k = k' := eq_of_ends ⟨stem, (stemBefore?_eq_some_iff.mp hstem).1.symm⟩
    ⟨stem', (stemBefore?_eq_some_iff.mp hstem').1.symm⟩
  subst hk
  cases hstem.symm.trans hstem'
  exact ⟨String.toList_inj.mp (hdrop.symm.trans hdrop'), rfl⟩

theorem SplitsBy.congr {n : Numeral} {allowed allowed' : NumericKind → Prop}
    (h : n.SplitsBy text allowed) (hallowed : ∀ k, allowed k ↔ allowed' k) :
    n.SplitsBy text allowed' := by
  rwa [← funext fun k => propext (hallowed k)]

theorem SplitsBy.unique {n n' : Numeral} {allowed : NumericKind → Prop}
    (h : n.SplitsBy text allowed) (h' : n'.SplitsBy text allowed) : n = n' := by
  by_cases hparts : ∃ digits k, allowed k ∧ Parts text digits k.spelling
  · obtain ⟨digits, k, hk⟩ := hparts
    rw [(h.suffixed digits k).mpr hk, (h'.suffixed digits k).mpr hk]
  · have hnone : ∀ digits k, allowed k → ¬ Parts text digits k.spelling :=
      fun digits k hk hp => hparts ⟨digits, k, hk, hp⟩
    rw [h.plain hnone, h'.plain hnone]

end Numeral

end TypeDerivation
