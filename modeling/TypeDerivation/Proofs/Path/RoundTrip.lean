import TypeDerivation.Proofs.Name.Calls

/-!
Paths and texts back and forth. A path made of segments is read back from its text, and the text of
a path that was read is the canonical one, so that reading it again gives nothing new.
-/

namespace TypeDerivation

namespace SymbolPath

/-- A text that can stand between the colons of a path. -/
structure IsSegment (w : String) : Prop where
  ne_empty : w ≠ ""
  no_colon : ':' ∉ w.toList
  trimmed : Text.trim w.toList = w.toList

instance (w : String) : Decidable (IsSegment w) :=
  decidable_of_iff (w ≠ "" ∧ ':' ∉ w.toList ∧ Text.trim w.toList = w.toList)
    ⟨fun h => ⟨h.1, h.2.1, h.2.2⟩, fun h => ⟨h.ne_empty, h.no_colon, h.trimmed⟩⟩

/-- The names in the path are those of segments, and no keyword is the name of its head. -/
structure Plain (p : SymbolPath) (names : NameTable) : Prop where
  segment : ∀ n ∈ p.names, IsSegment (names.text n)
  numbered : ∀ n ∈ p.names, names.get? (names.text n) = some n
  head : ∀ n, p.head = .named n → names.text n ∉ keywords

variable {names : NameTable} {p : SymbolPath} {text w : String} {ws : List String}
  {cs rest : List Char} {ps : List (List Char)}

theorem pieces_cons_of_ne {c : Char} (h : c ≠ ':') (piece : List Char) (others : List (List Char))
    (hcs : pieces cs = piece :: others) : pieces (c :: cs) = (c :: piece) :: others := by
  rw [pieces, hcs]
  intro rest he
  exact absurd he h

theorem pieces_of_not_mem (h : ':' ∉ cs) : pieces cs = [cs] := by
  induction cs with
  | nil => rfl
  | cons c cs ih =>
    rw [List.mem_cons, not_or] at h
    obtain ⟨hc, hcs⟩ := h
    exact pieces_cons_of_ne (Ne.symm hc) cs [] (ih hcs)

theorem pieces_append (h : ':' ∉ cs) : pieces (cs ++ ':' :: ':' :: rest) = cs :: pieces rest := by
  induction cs with
  | nil => rfl
  | cons c cs ih =>
    rw [List.mem_cons, not_or] at h
    obtain ⟨hc, hcs⟩ := h
    exact pieces_cons_of_ne (Ne.symm hc) cs (pieces rest) (ih hcs)

theorem pieces_intercalate (hne : ps ≠ []) (h : ∀ p ∈ ps, ':' ∉ p) :
    pieces ([':', ':'].intercalate ps) = ps := by
  induction ps with
  | nil => exact absurd rfl hne
  | cons p ps ih =>
    obtain ⟨hp, hps⟩ := List.forall_mem_cons.mp h
    cases ps with
    | nil =>
      rw [List.intercalate_singleton]
      exact pieces_of_not_mem hp
    | cons q ps =>
      rw [List.intercalate_cons_cons, List.append_assoc, List.cons_append, List.cons_append,
        List.nil_append, pieces_append hp, ih (by simp) hps]

theorem words_eq (text : String) : words text = (kept (pieces text.toList)).map String.ofList := rfl

theorem words_intercalate (h : ∀ w ∈ ws, IsSegment w) : words ("::".intercalate ws) = ws := by
  by_cases hws : ws = []
  · subst hws
    decide
  · have hcolon : ∀ p ∈ ws.map String.toList, ':' ∉ p :=
      List.forall_mem_map.mpr fun w hw => (h w hw).no_colon
    have hkept : ∀ p ∈ ws.map String.toList, p ≠ [] ∧ Text.trim p = p :=
      List.forall_mem_map.mpr fun w hw =>
        ⟨fun he => (h w hw).ne_empty (String.toList_eq_nil_iff.mp he), (h w hw).trimmed⟩
    rw [words_eq, String.toList_intercalate]
    change (kept (pieces ([':', ':'].intercalate _))).map _ = _
    rw [pieces_intercalate (by simpa using hws) hcolon, kept_eq_self hkept, List.map_map]
    simp [Function.comp_def]

theorem isSegment_of_mem_words (h : ∀ piece ∈ pieces text.toList, ':' ∉ piece)
    (hw : w ∈ words text) : IsSegment w := by
  rw [words_eq, kept, List.mem_map] at hw
  obtain ⟨cs, hcs, rfl⟩ := hw
  obtain ⟨hmem, hne⟩ := List.mem_filter.mp hcs
  obtain ⟨piece, hpiece, rfl⟩ := List.mem_map.mp hmem
  refine ⟨?_, ?_, ?_⟩
  · simpa using hne
  · rw [String.toList_ofList]
    exact fun hc => h piece hpiece ((Text.trim_sublist piece).subset hc)
  · rw [String.toList_ofList, Text.trim_trim]

theorem isSegment_of_mem_keywords (h : w ∈ keywords) : IsSegment w := by
  simp only [keywords, List.mem_cons, List.not_mem_nil, or_false] at h
  rcases h with rfl | rfl | rfl | rfl <;> decide

theorem headOf_render {head : PathHead}
    (hget : ∀ n, head = .named n → names.get? (names.text n) = some n)
    (hkeyword : ∀ n, head = .named n → names.text n ∉ keywords) :
    headOf names (head.render names) = (head, names) := by
  cases head with
  | selfValue | selfType | superModule | crateRoot => rfl
  | named n =>
    rw [PathHead.render]
    rcases headOf_cases (names.text n) with ⟨hmem, -⟩ | ⟨-, hhead⟩
    · exact absurd hmem (hkeyword n rfl)
    · rw [hhead, NameTable.intern_of_get? (hget n rfl)]

theorem mem_names_of_head {n : Name} (h : p.head = .named n) : n ∈ p.names := by
  rw [SymbolPath.names, h]
  exact List.mem_cons_self

theorem mem_names_of_mem_segments {n : Name} (h : n ∈ p.segments) : n ∈ p.names := by
  rw [SymbolPath.names]
  split
  · exact List.mem_cons_of_mem _ h
  · exact h

theorem Plain.words_render (h : p.Plain names) :
    words (p.render names) = p.head.render names :: p.segments.map names.text := by
  have hhead : IsSegment (p.head.render names) := by
    cases hp : p.head with
    | named n => exact h.segment n (mem_names_of_head hp)
    | selfValue | selfType | superModule | crateRoot =>
      exact isSegment_of_mem_keywords (by simp [PathHead.render, keywords])
  have hsegments : ∀ w ∈ p.segments.map names.text, IsSegment w :=
    List.forall_mem_map.mpr fun n hn => h.segment n (mem_names_of_mem_segments hn)
  rw [render, append_renderSegments, words_intercalate]
  exact List.forall_mem_cons.mpr ⟨hhead, hsegments⟩

theorem Plain.parse_render (h : p.Plain names) : parse names (p.render names) = (p, names) := by
  have hhead : headOf names (p.head.render names) = (p.head, names) :=
    headOf_render (fun n hn => h.numbered n (mem_names_of_head hn)) h.head
  have hsegments : names.internAll (p.segments.map names.text) = (p.segments, names) :=
    NameTable.internAll_of_get? fun n hn => h.numbered n (mem_names_of_mem_segments hn)
  rw [parse, h.words_render]
  dsimp only
  rw [hhead]
  dsimp only
  rw [hsegments]

theorem mem_of_mem_namedWords (h : w ∈ namedWords ws) : w ∈ ws := by
  cases ws with
  | nil => exact h
  | cons word rest =>
    rw [namedWords] at h
    split at h
    · exact List.mem_cons_of_mem _ h
    · exact h

theorem plain_parse (hsound : names.Sound) (hcolon : ∀ piece ∈ pieces text.toList, ':' ∉ piece)
    (hw : words text ≠ []) : (parse names text).1.Plain (parse names text).2 := by
  have hnames := Prod.mk.inj (names_parse names hw)
  have hsound' : (parse names text).2.Sound := hnames.2 ▸ hsound.internAll _
  have htext {n : Name} (hn : n ∈ (parse names text).1.names) :
      ∃ s ∈ words text, (parse names text).2.texts[n.raw]? = some s := by
    rw [hnames.1] at hn
    obtain ⟨s, hs, htext⟩ := hsound.exists_text_of_mem (.refl _) hn
    exact ⟨s, mem_of_mem_namedWords hs, hnames.2 ▸ htext⟩
  refine ⟨?_, ?_, ?_⟩
  · intro n hn
    obtain ⟨s, hs, hn⟩ := htext hn
    rw [NameTable.text_eq hn]
    exact isSegment_of_mem_words hcolon hs
  · intro n hn
    obtain ⟨s, -, hn⟩ := htext hn
    rw [NameTable.text_eq hn]
    exact (hsound' s n).mpr hn
  · -- a head that was read as a name is the name of its word, which was no keyword
    intro n hn
    obtain ⟨word, rest, hwords⟩ := List.exists_cons_of_ne_nil hw
    rw [parse, hwords] at hn ⊢
    dsimp only at hn ⊢
    rcases headOf_cases word with ⟨-, head, hhead, hname, -⟩ | ⟨hmem, -⟩
    · rw [hhead] at hn
      exact absurd hn (hname n)
    · have hrender := render_headOf hsound (NameTable.retains_internAll (headOf names word).2 rest)
      rw [hn, PathHead.render] at hrender
      rwa [hrender]

/-- Whatever the table has gone through: the text of a path that was read is made of its words, and
is read as the same path, with no new name; and a plain path is read back from its text. -/
theorem path_text_round_trip (calls : List NameTable.Call) :
    let t := NameTable.initial.afterAll calls
    (∀ text, (∀ piece ∈ pieces text.toList, ':' ∉ piece) →
      let p := (parse t text).1
      let t' := (parse t text).2
      p.render t' = "::".intercalate (words text) ∧ parse t' (p.render t') = (p, t')) ∧
    ∀ p : SymbolPath, p.Plain t → parse t (p.render t) = (p, t) := by
  intro t
  have hsound : t.Sound := NameTable.sound_initial.afterAll calls
  have hempty : t.texts[0]? = some "" := NameTable.initial.retains_afterAll calls rfl
  refine ⟨?_, fun p hp => hp.parse_render⟩
  intro text hcolon p t'
  have hrender : p.render t' = canonical text := render_parse hsound hempty (.refl _)
  refine ⟨hrender, ?_⟩
  by_cases hw : words text = []
  · have hp : parse t text = (single .empty, t) := parse_of_words_nil hw
    have hagain : words (p.render t') = [] := by
      rw [hrender, canonical, hw]
      decide
    rw [parse_of_words_nil hagain]
    simp only [p, t', hp]
  · exact (plain_parse hsound hcolon hw).parse_render

def geoNames : NameTable := .afterAll .initial [.parse "geo::S"]

def geoPath : SymbolPath := ⟨.named ⟨7⟩, [⟨3⟩, ⟨8⟩]⟩

theorem parse_geoNames : parse geoNames " :: geo ::::super:: S" = (geoPath, geoNames) := rfl

theorem plain_geoPath : geoPath.Plain geoNames where
  segment := by decide
  numbered := by decide
  head n hn := by
    cases hn
    decide

/-- A keyword that is no head is read as a name. -/
theorem path_text_round_trip_spaced :
    (∀ piece ∈ pieces " :: geo ::::super:: S".toList, ':' ∉ piece) ∧
      parse geoNames " :: geo ::::super:: S" = (geoPath, geoNames) ∧
      geoPath.render geoNames = "geo::super::S" ∧ geoPath.Plain geoNames ∧
      parse geoNames (geoPath.render geoNames) = (geoPath, geoNames) := by
  have hcolon : ∀ piece ∈ pieces " :: geo ::::super:: S".toList, ':' ∉ piece := by decide
  obtain ⟨hread, hback⟩ := path_text_round_trip [.parse "geo::S"]
  have hrender : geoPath.render geoNames = "::".intercalate (words " :: geo ::::super:: S") :=
    (hread _ hcolon).1
  exact ⟨hcolon, parse_geoNames, hrender.trans (by decide), plain_geoPath,
    hback geoPath plain_geoPath⟩

end SymbolPath

end TypeDerivation
