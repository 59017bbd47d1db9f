import TypeDerivation.Path.Spelling
import TypeDerivation.Proofs.Name.Table
import TypeDerivation.Proofs.Text.Trimming

/-!
What is left of the spelling of a path. A path is rendered as the words of the text that it was read
from, so the text comes back exactly if its words stand alone between the colons.
-/

namespace TypeDerivation

namespace SymbolPath

/-- The words of a text, with double colons between them and nothing else. -/
def canonical (text : String) : String := "::".intercalate (words text)

/-- Between its double colons the text has words only, without blanks around them. -/
def Neat (text : String) : Prop :=
  text = "" ∨ ∀ piece ∈ pieces text.toList, piece ≠ [] ∧ Text.trim piece = piece

instance (text : String) : Decidable (Neat text) := inferInstanceAs (Decidable (_ ∨ _))

variable {names names' : NameTable} {text : String}

theorem intercalate_pieces (cs : List Char) : [':', ':'].intercalate (pieces cs) = cs := by
  fun_induction pieces cs with
  | case1 => rfl
  | case2 rest ih =>
    obtain ⟨piece, others, hp⟩ := List.exists_cons_of_ne_nil (pieces_ne_nil rest)
    rw [hp] at ih ⊢
    rw [List.intercalate_cons_cons, ih]
    rfl
  | case3 c rest _ hnil => exact absurd hnil (pieces_ne_nil rest)
  | case4 c rest _ piece others hp ih =>
    rw [hp] at ih
    cases others with
    | nil =>
      rw [List.intercalate_singleton] at ih ⊢
      rw [ih]
    | cons q others =>
      rw [List.intercalate_cons_cons] at ih ⊢
      rw [← ih]
      rfl

/-- How many characters the pieces take, each with the double colon that follows it. -/
def room : List (List Char) → Nat
  | [] => 0
  | p :: ps => p.length + 2 + room ps

theorem length_intercalate {ps : List (List Char)} (h : ps ≠ []) :
    ([':', ':'].intercalate ps).length + 2 = room ps := by
  induction ps with
  | nil => exact absurd rfl h
  | cons p rest ih =>
    cases rest with
    | nil => simp [room]
    | cons q rest =>
      have hrest := ih (by simp)
      simp only [List.intercalate_cons_cons, room, List.length_append, List.length_cons,
        List.length_nil] at hrest ⊢
      omega

/-- The pieces that are more than blanks, as characters. -/
def kept (ps : List (List Char)) : List (List Char) := (ps.map Text.trim).filter (!·.isEmpty)

theorem toList_canonical (text : String) :
    (canonical text).toList = [':', ':'].intercalate (kept (pieces text.toList)) := by
  have hid : String.toList ∘ String.ofList = id := by
    funext cs
    exact String.toList_ofList
  rw [canonical, String.toList_intercalate, words, List.map_map, hid, List.map_id]
  rfl

theorem kept_cons (p : List Char) (ps : List (List Char)) :
    kept (p :: ps) = if Text.trim p = [] then kept ps else Text.trim p :: kept ps := by
  by_cases hp : Text.trim p = [] <;> simp [kept, hp]

theorem kept_eq_self {ps : List (List Char)} (h : ∀ p ∈ ps, p ≠ [] ∧ Text.trim p = p) :
    kept ps = ps := by
  induction ps with
  | nil => rfl
  | cons p rest ih =>
    obtain ⟨⟨hne, htrim⟩, hrest⟩ := List.forall_mem_cons.mp h
    rw [kept_cons, htrim, if_neg hne, ih hrest]

/-- Nothing is dropped and nothing trimmed if what is kept takes as much room. -/
theorem room_kept (ps : List (List Char)) :
    room (kept ps) ≤ room ps ∧
      (room (kept ps) = room ps → ∀ p ∈ ps, p ≠ [] ∧ Text.trim p = p) := by
  induction ps with
  | nil => simp [kept]
  | cons p rest ih =>
    obtain ⟨hle, heq⟩ := ih
    have htrim := Text.trim_sublist p
    have hlength := htrim.length_le
    rw [kept_cons, room]
    by_cases hp : Text.trim p = []
    · rw [if_pos hp]
      exact ⟨by omega, fun h => by omega⟩
    · rw [if_neg hp, room]
      refine ⟨by omega, ?_⟩
      intro h
      have hsame := htrim.eq_of_length (by omega)
      exact List.forall_mem_cons.mpr ⟨⟨hsame ▸ hp, hsame⟩, heq (by omega)⟩

theorem canonical_eq_iff : canonical text = text ↔ Neat text := by
  rw [← String.toList_inj, toList_canonical]
  constructor
  · intro h
    by_cases hk : kept (pieces text.toList) = []
    · rw [hk] at h
      exact .inl (String.toList_inj.mp h.symm)
    · have hlength := congrArg (List.length · + 2) (h.trans (intercalate_pieces text.toList).symm)
      simp only [length_intercalate hk, length_intercalate (pieces_ne_nil _)] at hlength
      exact .inr ((room_kept _).2 hlength)
  · rintro (rfl | h)
    · decide
    · rw [kept_eq_self h, intercalate_pieces]

theorem sound_headOf (h : names.Sound) (word : String) : (headOf names word).2.Sound := by
  rcases headOf_cases word with ⟨-, head, hhead, -⟩ | ⟨-, hhead⟩
  · rwa [hhead]
  · rw [hhead]
    exact h.intern word

theorem render_headOf (h : names.Sound) {word : String}
    (hret : names'.Retains (headOf names word).2) :
    (headOf names word).1.render names' = word := by
  rcases headOf_cases word with ⟨-, head, hhead, -, hrender⟩ | ⟨-, hhead⟩
  · rw [hhead, hrender]
  · rw [hhead] at hret ⊢
    exact NameTable.text_eq (hret (h.texts_intern word))

theorem render_single (names : NameTable) (n : Name) : (single n).render names = names.text n := by
  rw [render, single, PathHead.render, renderSegments, String.append_empty]

theorem append_renderSegments (names : NameTable) (word : String) (ns : List Name) :
    word ++ renderSegments names ns = "::".intercalate (word :: ns.map names.text) := by
  induction ns generalizing word with
  | nil => rw [renderSegments, String.append_empty, List.map_nil, String.intercalate_singleton]
  | cons n rest ih =>
    rw [renderSegments, List.map_cons, String.intercalate_cons_cons, ← ih]
    simp only [String.append_assoc]

/-- A path that was read from a text is rendered as the words of the text, also later. -/
theorem render_parse (h : names.Sound) (hempty : names.texts[0]? = some "")
    (hret : names'.Retains (parse names text).2) :
    (parse names text).1.render names' = canonical text := by
  rw [canonical]
  rw [parse] at hret ⊢
  cases hw : words text with
  | nil =>
    rw [hw] at hret
    dsimp only at hret ⊢
    rw [render_single, String.intercalate_nil]
    exact NameTable.text_eq (hret hempty)
  | cons word rest =>
    rw [hw] at hret
    have hhead := render_headOf h (hret.trans (NameTable.retains_internAll _ rest))
    have hsegments := (sound_headOf h word).text_internAll rest hret
    dsimp only at hhead hsegments ⊢
    rw [render, hhead, append_renderSegments, hsegments]

end SymbolPath

end TypeDerivation
