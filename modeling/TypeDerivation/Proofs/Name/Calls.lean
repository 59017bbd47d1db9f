import Mathlib.Data.List.Nodup
import TypeDerivation.Proofs.Path.Spelling

/-!
Tables of names that have gone through calls of any kind. Each call numbers some texts, from the
first to the last, so texts and numbers stay one to one and what has a number keeps it.
-/

namespace TypeDerivation

namespace NameTable

inductive Call where
  | intern (text : String)
  | tryIntern (text : String)
  | get (text : String)
  | lookup (name : Name)
  | parse (text : String)

namespace Call

/-- The texts that the call gives a number, if they have none and there is room. -/
def texts : Call → List String
  | intern text | tryIntern text => [text]
  | get _ | lookup _ => []
  | parse text => SymbolPath.namedWords (SymbolPath.words text)

/-- The names that the call answers with. -/
def names (t : NameTable) : Call → List Name
  | intern text => [(t.intern text).1]
  | tryIntern text => (t.tryIntern text).1.toOption.toList
  | get text => (t.get? text).toList
  | lookup _ => []
  | parse text => (SymbolPath.parse t text).1.names

end Call

def after (t : NameTable) : Call → NameTable
  | .intern text => (t.intern text).2
  | .tryIntern text => (t.tryIntern text).2
  | .get _ | .lookup _ => t
  | .parse text => (SymbolPath.parse t text).2

def afterAll (t : NameTable) (calls : List Call) : NameTable := calls.foldl after t

variable {t : NameTable} {s : String} {m n : Name} {call : Call} {calls : List Call}

theorem sound_initial : initial.Sound := sound_blank.internAll _

theorem get?_initial_isSome : (initial.get? s).isSome = true ↔ s ∈ reserved := by
  rw [initial, get?_internAll_isSome]
  exact or_iff_right (by simp [blank, get?])

theorem after_cases (t : NameTable) (call : Call) :
    t.after call = (t.internAll call.texts).2 ∨
      Name.largest < t.size ∧ t.after call = t := by
  cases call with
  | intern s => exact .inl rfl
  | tryIntern s =>
    rcases t.tryIntern_cases s with h | ⟨hfull, h⟩
    · exact .inl (congrArg Prod.snd h)
    · exact .inr ⟨hfull, congrArg Prod.snd h⟩
  | get s | lookup n => exact .inl rfl
  | parse s => exact .inl (SymbolPath.table_parse t s)

theorem Sound.after (h : t.Sound) (call : Call) : (t.after call).Sound := by
  rcases t.after_cases call with he | ⟨-, he⟩
  · rw [he]
    exact h.internAll _
  · rwa [he]

theorem retains_after (t : NameTable) (call : Call) : (t.after call).Retains t := by
  rcases t.after_cases call with he | ⟨-, he⟩
  · rw [he]
    exact t.retains_internAll _
  · rw [he]
    exact .refl t

theorem Sound.afterAll (h : t.Sound) (calls : List Call) : (t.afterAll calls).Sound := by
  induction calls generalizing t with
  | nil => exact h
  | cons call rest ih => exact ih (h.after call)

theorem retains_afterAll (t : NameTable) (calls : List Call) : (t.afterAll calls).Retains t := by
  induction calls generalizing t with
  | nil => exact .refl t
  | cons call rest ih => exact (ih (t.after call)).trans (t.retains_after call)

theorem get?_after_isSome (hroom : t.size ≤ Name.largest) :
    ((t.after call).get? s).isSome = true ↔ (t.get? s).isSome = true ∨ s ∈ call.texts := by
  rcases t.after_cases call with he | ⟨hfull, -⟩
  · rw [he, get?_internAll_isSome]
  · omega

theorem get?_afterAll_isSome (hroom : (t.afterAll calls).size ≤ Name.largest) :
    ((t.afterAll calls).get? s).isSome = true ↔
      (t.get? s).isSome = true ∨ ∃ call ∈ calls, s ∈ call.texts := by
  induction calls generalizing t with
  | nil => simp [afterAll]
  | cons call rest ih =>
    -- a table never gets smaller, so there was room at each call
    have hle := (t.retains_afterAll (call :: rest)).size_le
    change ((t.after call).afterAll rest).size ≤ _ at hroom
    change (((t.after call).afterAll rest).get? s).isSome = true ↔ _
    rw [ih hroom, get?_after_isSome (Nat.le_trans hle hroom), or_assoc,
      ← List.exists_mem_cons_iff (fun call => s ∈ call.texts) call rest]

theorem afterAll_eq_self (h : ∀ call ∈ calls, ∀ s ∈ call.texts, (t.get? s).isSome = true) :
    t.afterAll calls = t := by
  induction calls with
  | nil => rfl
  | cons call rest ih =>
    obtain ⟨hcall, hrest⟩ := List.forall_mem_cons.mp h
    have hsame : t.after call = t := by
      rcases t.after_cases call with he | ⟨-, he⟩
      · rw [he, internAll_eq_self hcall]
      · exact he
    change (t.after call).afterAll rest = t
    rw [hsame, ih hrest]

theorem Sound.nodup_texts (h : t.Sound) : t.texts.toList.Nodup := by
  rw [List.nodup_iff_getElem?_ne_getElem?]
  intro i j hij hj he
  rw [Array.getElem?_toList, Array.getElem?_toList] at he
  have hlt : j < t.texts.size := by simpa using hj
  have hs : t.texts[j]? = some t.texts[j] := Array.getElem?_eq_getElem hlt
  have hi := (h _ ⟨i⟩).mpr (he.trans hs)
  rw [(h _ ⟨j⟩).mpr hs, Option.some.injEq, Name.mk.injEq] at hi
  omega

theorem Sound.lt_of_get? (h : t.Sound) (hn : t.get? s = some n) : n.raw < t.size := by
  obtain ⟨hlt, -⟩ := Array.getElem?_eq_some_iff.mp ((h s n).mp hn)
  exact hlt

theorem Sound.lt_of_intern (h : t.Sound) (s : String) :
    (t.intern s).1.raw < (t.intern s).2.size :=
  (h.intern s).lt_of_get? get?_intern_self

theorem Sound.lt_of_mem_names (h : t.Sound) (hempty : t.texts[0]? = some "")
    (hn : n ∈ call.names t) : n.raw < (t.after call).size := by
  cases call with
  | intern s =>
    cases List.mem_singleton.mp hn
    exact h.lt_of_intern s
  | tryIntern s =>
    rw [NameTable.after]
    rw [Call.names] at hn
    rcases t.tryIntern_cases s with he | ⟨-, he⟩
    · rw [he] at hn ⊢
      cases List.mem_singleton.mp hn
      exact h.lt_of_intern s
    · rw [he] at hn
      cases hn
  | get s =>
    rw [Call.names, Option.mem_toList] at hn
    exact h.lt_of_get? hn
  | lookup m => cases hn
  | parse s =>
    rw [NameTable.after]
    rw [Call.names] at hn
    by_cases hw : SymbolPath.words s = []
    · rw [SymbolPath.parse_of_words_nil hw] at hn ⊢
      cases List.mem_singleton.mp hn
      exact (Array.getElem?_eq_some_iff.mp hempty).1
    · have he := Prod.mk.inj (SymbolPath.names_parse t hw)
      rw [he.1] at hn
      rw [he.2]
      obtain ⟨s', -, hs'⟩ := h.exists_text_of_mem (.refl _) hn
      exact (Array.getElem?_eq_some_iff.mp hs').1

/-- While there is room, and whatever was called before: a text has one number and a number one
text, also later, and a text has a number if it is reserved or if it was given one. -/
theorem numbering_one_to_one (calls : List Call)
    (hroom : (initial.afterAll calls).size ≤ Name.largest) :
    let t := initial.afterAll calls
    t.texts.toList.Nodup ∧
    (∀ s n, t.get? s = some n ↔ t.texts[n.raw]? = some s) ∧
    (∀ s, (t.intern s).1 = (t.get? s).getD ⟨t.size⟩ ∧
      (t.intern s).2.texts = (if (t.get? s).isSome then t.texts else t.texts.push s) ∧
      t.tryIntern s = (.ok (t.intern s).1, (t.intern s).2)) ∧
    (∀ s later, ((t.intern s).2.afterAll later).text (t.intern s).1 = s) ∧
    (∀ call later, ∀ n ∈ call.names t, n.raw < (t.after call).size ∧
      ((t.after call).afterAll later).text n = (t.after call).text n) ∧
    (∀ m n, m.raw < t.size → n.raw < t.size → (m = n ↔ t.text m = t.text n)) ∧
    (∀ s, t.after (.get s) = t ∧
      ((t.get? s).isSome = true ↔ s ∈ reserved ∨ ∃ call ∈ calls, s ∈ call.texts)) ∧
    ∀ n, t.after (.lookup n) = t ∧ (t.size ≤ n.raw → t.text n = "") := by
  intro t
  have hsound : t.Sound := sound_initial.afterAll calls
  have hempty : t.texts[0]? = some "" := initial.retains_afterAll calls rfl
  refine ⟨hsound.nodup_texts, hsound, ?_, ?_, ?_, ?_, ?_, ?_⟩
  · intro s
    exact ⟨t.fst_intern s, t.texts_snd_intern s, tryIntern_of_size_le hroom s⟩
  · intro s later
    exact text_eq (retains_afterAll _ later (hsound.texts_intern s))
  · intro call later n hn
    have hlt := hsound.lt_of_mem_names hempty hn
    exact ⟨hlt, (retains_afterAll _ later).text_eq hlt⟩
  · intro m n hm hn
    exact ⟨fun he => he ▸ rfl, hsound.text_inj hm hn⟩
  · intro s
    refine ⟨rfl, ?_⟩
    rw [get?_afterAll_isSome hroom, get?_initial_isSome]
  · intro n
    exact ⟨rfl, text_of_size_le⟩

theorem numbering_one_to_one_parsedPath :
    let calls : List Call := [.intern "x", .get "fresh", .parse "self::x::S"]
    let t := initial.afterAll calls
    let call : Call := .parse "Self::S::fresh"
    let later : List Call := [.tryIntern "y", .parse "y::S"]
    t.size ≤ Name.largest ∧ t.texts.toList.Nodup ∧
      ⟨8⟩ ∈ call.names t ∧
      ((t.after call).afterAll later).text ⟨8⟩ = (t.after call).text ⟨8⟩ ∧
      (⟨7⟩ : Name).raw < t.size ∧ (⟨8⟩ : Name).raw < t.size ∧
      ((⟨7⟩ : Name) = ⟨8⟩ ↔ t.text ⟨7⟩ = t.text ⟨8⟩) ∧
      t.size ≤ (⟨9⟩ : Name).raw ∧ t.text ⟨9⟩ = "" := by
  intro calls t call later
  have hsize : t.size = 9 := rfl
  have hroom : t.size ≤ Name.largest := by rw [hsize]; decide
  have hmem : ⟨8⟩ ∈ call.names t := by decide
  have h7 : (⟨7⟩ : Name).raw < t.size := by rw [hsize]; decide
  have h8 : (⟨8⟩ : Name).raw < t.size := by rw [hsize]; decide
  have h9 : t.size ≤ (⟨9⟩ : Name).raw := Nat.le_of_eq hsize
  obtain ⟨hnodup, -, -, -, hkept, hinj, -, houtside⟩ := numbering_one_to_one calls hroom
  exact ⟨hroom, hnodup, hmem, (hkept call later _ hmem).2, h7, h8, hinj _ _ h7 h8, h9,
    (houtside _).2 h9⟩

/-- No call makes a table count as empty. It is as large as a new one as long as each text that was
given a number is reserved. -/
theorem size_eq_initial_iff (calls : List Call) :
    (initial.afterAll calls).isEmpty = false ∧
      ((initial.afterAll calls).size = initial.size ↔
        ∀ call ∈ calls, ∀ s ∈ call.texts, s ∈ reserved) := by
  have hretains := initial.retains_afterAll calls
  have hinitial : initial.size = 7 := rfl
  constructor
  · have hle := hretains.size_le
    rw [isEmpty, decide_eq_false_iff_not]
    omega
  constructor
  · intro hsize call hcall s hs
    have hsound := sound_initial.afterAll calls
    have hroom : (initial.afterAll calls).size ≤ Name.largest := by
      rw [hsize, hinitial]
      decide
    obtain ⟨n, hn⟩ := Option.isSome_iff_exists.mp
      ((get?_afterAll_isSome hroom).mpr (.inr ⟨call, hcall, hs⟩))
    -- the number is that of a reserved text, which has kept it
    have hlt : n.raw < initial.texts.size :=
      Nat.lt_of_lt_of_eq (hsound.lt_of_get? hn) hsize
    have hold := Array.getElem?_eq_getElem hlt
    have hsame := ((hsound s n).mp hn).symm.trans (hretains hold)
    rw [← Option.some.inj hsame] at hold
    exact get?_initial_isSome.mp (Option.isSome_of_eq_some ((sound_initial s n).mpr hold))
  · intro h
    rw [afterAll_eq_self fun call hcall s hs => get?_initial_isSome.mpr (h call hcall s hs)]

/-- A table that holds reserved texts alone does not count as empty. -/
theorem reserved_texts_not_isEmpty :
    let calls : List Call := [.get "x", .intern "self", .tryIntern "true", .lookup ⟨7⟩]
    (∀ call ∈ calls, ∀ s ∈ call.texts, s ∈ reserved) ∧
      (initial.afterAll calls).isEmpty = false := by
  refine ⟨?_, rfl⟩
  decide

end NameTable

end TypeDerivation
