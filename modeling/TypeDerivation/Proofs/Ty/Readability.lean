import TypeDerivation.Proofs.Text.Words
import TypeDerivation.Proofs.Ty.Formed
import TypeDerivation.Tree.Step
import TypeDerivation.Ty.Text

/-!
The text of a type can be read in one way only, as long as the names in it are words of their own.
-/

namespace TypeDerivation

theorem Primitive.isWord_spelling (p : Primitive) : Text.IsWord p.spelling := by
  have h : ∀ p ∈ all, Text.IsWord p.spelling := by decide
  exact h p p.mem_all

theorem Primitive.spelling_ne_fn (p : Primitive) : p.spelling ≠ "fn" := by
  have h : ∀ p ∈ all, p.spelling ≠ "fn" := by decide
  exact h p p.mem_all

/-- The names of these declarations are words, and no name stands for two things. -/
structure SyntaxTree.Legible (t : SyntaxTree) (decls : List NodeId) : Prop where
  word : ∀ d ∈ decls, Text.IsWord (t.declText d)
  ne_spelling : ∀ d ∈ decls, t.declText d ∉ Primitive.all.map Primitive.spelling
  ne_fn : ∀ d ∈ decls, t.declText d ≠ "fn"
  distinct : ∀ d ∈ decls, ∀ e ∈ decls, t.declText d = t.declText e → d = e

namespace Ty

mutual

def decls : Ty → List NodeId
  | tuple elems => declsAll elems
  | ref inner _ => inner.decls
  | struct d | enum d | trait d | typeParam d => [d]
  | fn params ret => declsAll params ++ ret.decls
  | _ => []

def declsAll : List Ty → List NodeId
  | [] => []
  | ty :: rest => ty.decls ++ declsAll rest

end

theorem decls_subset_declsAll {ty : Ty} {tys : List Ty} (h : ty ∈ tys) :
    ty.decls ⊆ declsAll tys := by
  induction tys with
  | nil => cases h
  | cons a rest ih =>
    rw [declsAll]
    rcases List.mem_cons.mp h with rfl | h
    · exact List.subset_append_left ..
    · exact List.subset_append_of_subset_right _ (ih h)

/-- A well-formed type over a given stock of declarations. -/
structure Over (t : SyntaxTree) (ds : List NodeId) (ty : Ty) : Prop where
  formed : ty.Formed t
  decls : ty.decls ⊆ ds

inductive OneWord (t : SyntaxTree) : Ty → String → Prop where
  | primitive (p : Primitive) : OneWord t p.toTy p.spelling
  | nominal {ty : Ty} {d : NodeId} : ty.decl? = some d → OneWord t ty (t.declText d)

/-- How the text of a type is put together; that of the unit type is an empty listing. -/
inductive Wording (t : SyntaxTree) : Ty → Prop where
  | unknown : Wording t .unknown
  | word {ty : Ty} {w : String} : OneWord t ty w → Wording t ty
  | ofElems (elems : List Ty) : Wording t (ofElems elems)
  | ref (inner : Ty) (mutable : Bool) : Wording t (.ref inner mutable)
  | fn (params : List Ty) (ret : Ty) : Wording t (.fn params ret)

variable {t : SyntaxTree} {ds : List NodeId} {a b : Ty} {tys : List Ty} {w : String}
  {r s u : List Char}

theorem Formed.wording (h : a.Formed t) : Wording t a := by
  cases h with
  | unknown => exact .unknown
  | unit => exact .ofElems []
  | bool => exact .word (.primitive .bool)
  | char => exact .word (.primitive .char)
  | str => exact .word (.primitive .str)
  | int k => exact .word (.primitive (.int k))
  | float k => exact .word (.primitive (.float k))
  | tuple hne _ => exact ofElems_of_ne_nil hne ▸ .ofElems _
  | ref m _ => exact .ref _ m
  | struct _ | enum _ | trait _ | typeParam _ => exact .word (.nominal rfl)
  | fn _ _ => exact .fn ..

theorem Formed.eq_of_decl? {d : NodeId} (ha : a.Formed t) (hb : b.Formed t)
    (had : a.decl? = some d) (hbd : b.decl? = some d) : a = b := by
  cases ha <;> cases hb <;> simp_all [decl?]

namespace Over

theorem of_tuple (h : Over t ds (.tuple tys)) : ∀ ty ∈ tys, Over t ds ty := by
  obtain ⟨hf, hd⟩ := h
  cases hf with
  | tuple _ hs =>
    intro e he
    rw [Ty.decls] at hd
    exact ⟨hs e he, List.Subset.trans (decls_subset_declsAll he) hd⟩

theorem of_ofElems (h : Over t ds (ofElems tys)) : ∀ ty ∈ tys, Over t ds ty := by
  cases tys with
  | nil => simp
  | cons ty rest => exact of_tuple h

theorem of_ref {m : Bool} (h : Over t ds (.ref a m)) : Over t ds a := by
  obtain ⟨hf, hd⟩ := h
  cases hf with
  | ref _ hi => exact ⟨hi, by rwa [Ty.decls] at hd⟩

theorem of_fn (h : Over t ds (.fn tys a)) : (∀ ty ∈ tys, Over t ds ty) ∧ Over t ds a := by
  obtain ⟨hf, hd⟩ := h
  rw [Ty.decls, List.append_subset] at hd
  cases hf with
  | fn hs hr =>
    exact ⟨fun e he => ⟨hs e he, List.Subset.trans (decls_subset_declsAll he) hd.1⟩, hr, hd.2⟩

theorem decl_mem {d : NodeId} (h : Over t ds a) (ha : a.decl? = some d) : d ∈ ds := by
  have hd := h.decls
  cases a <;> simp_all [decl?, Ty.decls]

end Over

namespace OneWord

theorem text_eq (h : OneWord t a w) : a.text t = w := by
  cases h with
  | primitive p => exact text_toTy t p
  | nominal h => cases a <;> simp_all [decl?, text]

theorem isWord (hl : t.Legible ds) (ha : Over t ds a) (h : OneWord t a w) : Text.IsWord w := by
  cases h with
  | primitive p => exact p.isWord_spelling
  | nominal h => exact hl.word _ (ha.decl_mem h)

theorem ne_fn (hl : t.Legible ds) (ha : Over t ds a) (h : OneWord t a w) : w ≠ "fn" := by
  cases h with
  | primitive p => exact p.spelling_ne_fn
  | nominal h => exact hl.ne_fn _ (ha.decl_mem h)

theorem eq_of_nominal (hl : t.Legible ds) (ha : Over t ds a) (hb : Over t ds b) {d : NodeId}
    (had : a.decl? = some d) (h : OneWord t b (t.declText d)) : a = b := by
  have hd := ha.decl_mem had
  generalize hw : t.declText d = w at h
  cases h with
  | primitive p => exact absurd (hw ▸ List.mem_map_of_mem p.mem_all) (hl.ne_spelling d hd)
  | nominal hbe =>
    have he := hl.distinct d hd _ (hb.decl_mem hbe) hw
    exact ha.formed.eq_of_decl? hb.formed had (he ▸ hbe)

theorem unique (hl : t.Legible ds) (ha : Over t ds a) (hb : Over t ds b) (h : OneWord t a w)
    (h' : OneWord t b w) : a = b := by
  cases h with
  | nominal had => exact eq_of_nominal hl ha hb had h'
  | primitive p =>
    generalize hw : p.spelling = w at h'
    cases h' with
    | primitive q => rw [Primitive.spelling_injective hw]
    | nominal hbe => exact (eq_of_nominal hl hb ha hbe (hw ▸ .primitive p)).symm

end OneWord

def chars (t : SyntaxTree) (ty : Ty) : List Char := (ty.text t).toList

def items (t : SyntaxTree) (tys : List Ty) : List Char := (Text.listing (tys.map (text t))).toList

def further (t : SyntaxTree) (tys : List Ty) : List Char :=
  tys.flatMap fun ty => ',' :: ' ' :: ty.chars t

def closing (tys : List Ty) : List Char := if tys.length = 1 then [',', ')'] else [')']

def result (t : SyntaxTree) (ret : Ty) : List Char :=
  if ret.isUnit then [] else ' ' :: '-' :: '>' :: ' ' :: ret.chars t

theorem items_nil : items t [] = [] := rfl

theorem items_cons (a : Ty) (tys : List Ty) :
    items t (a :: tys) = a.chars t ++ further t tys := by
  rw [items, List.map_cons, Text.toList_listing, List.flatMap_map, chars]
  rfl

theorem further_cons (a : Ty) (tys : List Ty) :
    further t (a :: tys) = ',' :: ' ' :: (a.chars t ++ further t tys) := rfl

theorem result_of_ne_unit (h : a ≠ unit) :
    result t a = ' ' :: '-' :: '>' :: ' ' :: a.chars t := by
  rw [result, if_neg]
  exact fun ha => h (isUnit_iff.mp ha)

theorem OneWord.chars_eq (h : OneWord t a w) : a.chars t = w.toList := by rw [chars, h.text_eq]

theorem chars_unknown : unknown.chars t = '<' :: "unknown>".toList := by rw [chars, text]; rfl

theorem chars_ofElems (tys : List Ty) :
    (ofElems tys).chars t = '(' :: (items t tys ++ closing tys) := by
  rw [chars, text_ofElems, Text.tupled, items, closing]
  simp [apply_ite String.toList]

theorem chars_ref (a : Ty) (m : Bool) :
    (ref a m).chars t = '&' :: ((if m then "mut ".toList else []) ++ a.chars t) := by
  rw [chars, text, chars]
  cases m <;> simp [refMark]

theorem chars_fn (tys : List Ty) (a : Ty) :
    (fn tys a).chars t = "fn".toList ++ '(' :: (items t tys ++ ')' :: result t a) := by
  rw [chars, text, items, result, texts_eq_map, chars]
  cases a.isUnit <;> simp

section

variable (hl : t.Legible ds) (hb : Over t ds b)
include hl hb

theorem mark_cases {m : Char} (hm : Text.isWordChar m = false) (h : b.chars t ++ s = m :: u) :
    (m = '<' ∧ b = unknown ∧ u = "unknown>".toList ++ s) ∨
      (m = '(' ∧ ∃ tys, b = ofElems tys ∧ u = items t tys ++ (closing tys ++ s)) ∨
      (m = '&' ∧ ∃ a n, b = ref a n ∧
        u = (if n then "mut ".toList else []) ++ (a.chars t ++ s)) := by
  cases hb.formed.wording with
  | unknown =>
    rw [chars_unknown, List.cons_append, List.cons.injEq] at h
    exact .inl ⟨h.1.symm, rfl, h.2.symm⟩
  | ofElems tys =>
    rw [chars_ofElems, List.cons_append, List.append_assoc, List.cons.injEq] at h
    exact .inr (.inl ⟨h.1.symm, tys, rfl, h.2.symm⟩)
  | ref a n =>
    rw [chars_ref, List.cons_append, List.append_assoc, List.cons.injEq] at h
    exact .inr (.inr ⟨h.1.symm, a, n, rfl, h.2.symm⟩)
  | word hw =>
    rw [hw.chars_eq] at h
    exact absurd h ((hw.isWord hl hb).ne_mark hm)
  | fn tys a =>
    rw [chars_fn, List.append_assoc] at h
    exact absurd h (Text.IsWord.ne_mark (by decide) hm)

theorem word_cases (hw : Text.IsWord w) (hu : Text.Stops u) (hs : Text.Stops s)
    (h : b.chars t ++ s = w.toList ++ u) :
    (OneWord t b w ∧ u = s) ∨
      ∃ tys a, b = fn tys a ∧ w = "fn" ∧ u = '(' :: (items t tys ++ ')' :: (result t a ++ s)) := by
  cases hb.formed.wording with
  | word hbw =>
    rw [hbw.chars_eq] at h
    obtain ⟨rfl, rfl⟩ := (hbw.isWord hl hb).unique hw hs hu h
    exact .inl ⟨hbw, rfl⟩
  | fn tys a =>
    rw [chars_fn, List.append_assoc] at h
    obtain ⟨rfl, rfl⟩ := Text.IsWord.unique (by decide) hw (Text.stops_cons (by decide)) hu h
    exact .inr ⟨tys, a, rfl, rfl, by simp⟩
  | unknown =>
    rw [chars_unknown] at h
    exact absurd h.symm (hw.ne_mark (by decide))
  | ofElems tys =>
    rw [chars_ofElems] at h
    exact absurd h.symm (hw.ne_mark (by decide))
  | ref a m =>
    rw [chars_ref] at h
    exact absurd h.symm (hw.ne_mark (by decide))

theorem not_ends_chars : ¬ Text.Ends (b.chars t ++ s) := by
  rintro ⟨r, h | h⟩
  all_goals
    rcases mark_cases hl hb (by decide) h with ⟨hm, -⟩ | ⟨hm, -⟩ | ⟨hm, -⟩
    all_goals cases hm

end

/-- The text of this type, wherever it stands, determines the type and where its text ends. -/
structure Reads (t : SyntaxTree) (ds : List NodeId) (a : Ty) : Prop where
  unique : ∀ {b r s}, Over t ds b → Text.Closes r → Text.Closes s →
    a.chars t ++ r = b.chars t ++ s → a = b ∧ r = s

theorem closes_further (tys : List Ty) (hu : Text.Closes u) :
    Text.Closes (further t tys ++ u) := by
  cases tys with
  | nil => exact hu
  | cons ty rest => exact Text.closes_comma _

theorem reads_further {as bs : List Ty} (ih : ∀ a ∈ as, Reads t ds a)
    (hb : ∀ b ∈ bs, Over t ds b) (hr : Text.Ends r) (hs : Text.Ends s)
    (h : further t as ++ r = further t bs ++ s) : as = bs ∧ r = s := by
  induction as generalizing bs with
  | nil =>
    cases bs with
    | nil => exact ⟨rfl, h⟩
    | cons b bs => exact absurd h hr.ne_separated
  | cons a as iha =>
    cases bs with
    | nil => exact absurd h.symm hs.ne_separated
    | cons b bs =>
      simp only [further_cons, List.cons_append, List.append_assoc, List.cons.injEq, true_and] at h
      obtain ⟨rfl, hrest⟩ := (ih a (by simp)).unique (hb b (by simp))
        (closes_further as hr.closes) (closes_further bs hs.closes) h
      obtain ⟨rfl, rfl⟩ :=
        iha (fun e he => ih e (by simp [he])) (fun e he => hb e (by simp [he])) hrest
      exact ⟨rfl, rfl⟩

theorem reads_items (hl : t.Legible ds) {as bs : List Ty} (ha : ∀ a ∈ as, Over t ds a)
    (ih : ∀ a ∈ as, Reads t ds a) (hb : ∀ b ∈ bs, Over t ds b) (hr : Text.Ends r)
    (hs : Text.Ends s) (h : items t as ++ r = items t bs ++ s) : as = bs ∧ r = s := by
  cases as with
  | nil =>
    cases bs with
    | nil => exact ⟨rfl, h⟩
    | cons b bs =>
      rw [items_nil, items_cons, List.nil_append, List.append_assoc] at h
      exact absurd (h ▸ hr) (not_ends_chars hl (hb b (by simp)))
  | cons a as =>
    cases bs with
    | nil =>
      rw [items_nil, items_cons, List.nil_append, List.append_assoc] at h
      exact absurd (h ▸ hs) (not_ends_chars hl (ha a (by simp)))
    | cons b bs =>
      rw [items_cons, items_cons, List.append_assoc, List.append_assoc] at h
      obtain ⟨rfl, hrest⟩ := (ih a (by simp)).unique (hb b (by simp))
        (closes_further as hr.closes) (closes_further bs hs.closes) h
      obtain ⟨rfl, rfl⟩ := reads_further (fun e he => ih e (by simp [he]))
        (fun e he => hb e (by simp [he])) hr hs hrest
      exact ⟨rfl, rfl⟩

theorem ends_closing (tys : List Ty) : Text.Ends (closing tys ++ r) := by
  rw [closing]
  split
  · exact ⟨r, .inr rfl⟩
  · exact ⟨r, .inl rfl⟩

theorem reads_ofElems (hl : t.Legible ds) (tys : List Ty) (ha : ∀ a ∈ tys, Over t ds a)
    (ih : ∀ a ∈ tys, Reads t ds a) : Reads t ds (ofElems tys) := by
  constructor
  intro b r s hb _ _ h
  rw [chars_ofElems, List.cons_append, List.append_assoc] at h
  rcases mark_cases hl hb (by decide) h.symm with ⟨hm, -⟩ | ⟨-, bs, rfl, hbs⟩ | ⟨hm, -⟩
  · cases hm
  · obtain ⟨rfl, hend⟩ := reads_items hl ha ih hb.of_ofElems (ends_closing _) (ends_closing _) hbs
    exact ⟨rfl, List.append_cancel_left hend⟩
  · cases hm

theorem reads_unknown (hl : t.Legible ds) : Reads t ds unknown := by
  constructor
  intro b r s hb _ _ h
  rw [chars_unknown, List.cons_append] at h
  rcases mark_cases hl hb (by decide) h.symm with ⟨-, rfl, hs⟩ | ⟨hm, -⟩ | ⟨hm, -⟩
  · exact ⟨rfl, List.append_cancel_left hs⟩
  · cases hm
  · cases hm

theorem reads_word (hl : t.Legible ds) (ha : Over t ds a) (hw : OneWord t a w) :
    Reads t ds a := by
  constructor
  intro b r s hb hr hs h
  rw [hw.chars_eq] at h
  rcases word_cases hl hb (hw.isWord hl ha) hr.stops hs.stops h.symm with
    ⟨hbw, rfl⟩ | ⟨_, _, _, hfn, _⟩
  · exact ⟨hw.unique hl ha hb hbw, rfl⟩
  · exact absurd hfn (hw.ne_fn hl ha)

theorem ne_mut_blank (hl : t.Legible ds) (hb : Over t ds b) (hs : Text.Closes s) :
    b.chars t ++ s ≠ "mut".toList ++ ' ' :: u := by
  intro h
  rcases word_cases hl hb (by decide) (Text.stops_cons (by decide)) hs.stops h with
    ⟨_, hu⟩ | ⟨_, _, _, hfn, _⟩
  · exact hs.ne_blank hu.symm
  · exact absurd hfn (by decide)

theorem reads_ref (hl : t.Legible ds) (ha : Over t ds a) (ih : Reads t ds a) (m : Bool) :
    Reads t ds (ref a m) := by
  constructor
  intro b r s hb hr hs h
  rw [chars_ref, List.cons_append, List.append_assoc] at h
  rcases mark_cases hl hb (by decide) h.symm with ⟨hm, -⟩ | ⟨hm, -⟩ | ⟨-, b, n, rfl, hbn⟩
  · cases hm
  · cases hm
  -- a type whose name is `mut` is told from the mark by the blank that follows the mark
  · match m, n with
    | false, false =>
      obtain ⟨rfl, rfl⟩ := ih.unique hb.of_ref hr hs hbn
      exact ⟨rfl, rfl⟩
    | true, true =>
      obtain ⟨rfl, rfl⟩ := ih.unique hb.of_ref hr hs (List.append_cancel_left hbn)
      exact ⟨rfl, rfl⟩
    | false, true => exact absurd hbn (ne_mut_blank hl ha hr)
    | true, false => exact absurd hbn.symm (ne_mut_blank hl hb.of_ref hs)

theorem reads_result (ih : Reads t ds a) (hb : Over t ds b) (hr : Text.Closes r)
    (hs : Text.Closes s) (h : result t a ++ r = result t b ++ s) : a = b ∧ r = s := by
  -- only the unit type is left out, and an arrow cannot be what follows the whole function type
  by_cases hau : a = unit <;> by_cases hbu : b = unit
  · subst hau hbu
    exact ⟨rfl, h⟩
  · subst hau
    rw [result_of_ne_unit hbu] at h
    exact absurd h hr.ne_blank
  · subst hbu
    rw [result_of_ne_unit hau] at h
    exact absurd h.symm hs.ne_blank
  · rw [result_of_ne_unit hau, result_of_ne_unit hbu] at h
    exact ih.unique hb hr hs (by simpa using h)

theorem reads_fn (hl : t.Legible ds) (ha : Over t ds (.fn tys a)) (ihs : ∀ a ∈ tys, Reads t ds a)
    (ih : Reads t ds a) : Reads t ds (.fn tys a) := by
  constructor
  intro b r s hb hr hs h
  rw [chars_fn, List.append_assoc, List.cons_append, List.append_assoc, List.cons_append] at h
  rcases word_cases hl hb (by decide) (Text.stops_cons (by decide)) hs.stops h.symm with
    ⟨hbw, _⟩ | ⟨bs, b, rfl, _, hbs⟩
  · exact absurd rfl (hbw.ne_fn hl hb)
  · obtain ⟨rfl, hret⟩ := reads_items hl ha.of_fn.1 ihs hb.of_fn.1 ⟨_, .inl rfl⟩ ⟨_, .inl rfl⟩
      (List.cons.inj hbs).2
    obtain ⟨rfl, rfl⟩ := reads_result ih hb.of_fn.2 hr hs (List.cons.inj hret).2
    exact ⟨rfl, rfl⟩

theorem reads_of_over (hl : t.Legible ds) (ha : Over t ds a) : Reads t ds a := by
  obtain ⟨hf, hd⟩ := ha
  induction hf with
  | unknown => exact reads_unknown hl
  | unit => exact reads_ofElems hl [] (by simp) (by simp)
  | tuple hne hs ih =>
    have ha := Over.of_tuple ⟨.tuple hne hs, hd⟩
    rw [← ofElems_of_ne_nil hne]
    exact reads_ofElems hl _ ha fun e he => ih e he (ha e he).decls
  | ref m hi ih =>
    have ha := Over.of_ref ⟨.ref m hi, hd⟩
    exact reads_ref hl ha (ih ha.decls) m
  | fn hs hr ihs ih =>
    have ha : Over t ds _ := ⟨.fn hs hr, hd⟩
    exact reads_fn hl ha (fun e he => ihs e he (ha.of_fn.1 e he).decls) (ih ha.of_fn.2.decls)
  | bool => exact reads_word hl ⟨.bool, hd⟩ (.primitive .bool)
  | char => exact reads_word hl ⟨.char, hd⟩ (.primitive .char)
  | str => exact reads_word hl ⟨.str, hd⟩ (.primitive .str)
  | int k => exact reads_word hl ⟨.int k, hd⟩ (.primitive (.int k))
  | float k => exact reads_word hl ⟨.float k, hd⟩ (.primitive (.float k))
  | struct hk => exact reads_word hl ⟨.struct hk, hd⟩ (.nominal rfl)
  | enum hk => exact reads_word hl ⟨.enum hk, hd⟩ (.nominal rfl)
  | trait hk => exact reads_word hl ⟨.trait hk, hd⟩ (.nominal rfl)
  | typeParam hk => exact reads_word hl ⟨.typeParam hk, hd⟩ (.nominal rfl)

end Ty

/-- Well-formed types have different texts, if the declarations in them have different names and
these are words that the printer does not use itself. -/
theorem text_determines_type {t : SyntaxTree} {a b : Ty} (ha : a.Formed t) (hb : b.Formed t)
    (hl : t.Legible (a.decls ++ b.decls)) : a.text t = b.text t ↔ a = b := by
  constructor
  · intro h
    have hread := Ty.reads_of_over hl ⟨ha, List.subset_append_left ..⟩
    have hchars : a.chars t ++ [] = b.chars t ++ [] := by rw [Ty.chars, h, Ty.chars]
    exact (hread.unique ⟨hb, List.subset_append_right ..⟩ Text.closes_nil Text.closes_nil hchars).1
  · intro h
    rw [h]

/-- A struct and a type parameter whose names are hard to tell from the printer's own words. -/
def lookalikes : SyntaxTree :=
  .afterSteps .empty [.intern "i8x", .intern "mut", .node (.decl (.typeParam ⟨8⟩)),
    .node (.item (.struct ⟨7⟩ [⟨0⟩] []))]

theorem declText_lookalikes :
    lookalikes.declText ⟨0⟩ = "mut" ∧ lookalikes.declText ⟨1⟩ = "i8x" := ⟨rfl, rfl⟩

theorem legible_lookalikes : lookalikes.Legible [⟨1⟩, ⟨0⟩, ⟨1⟩] := by
  obtain ⟨hmut, hstruct⟩ := declText_lookalikes
  refine ⟨?_, ?_, ?_, ?_⟩ <;> simp only [List.forall_mem_cons, hmut, hstruct] <;> decide

theorem text_determines_type_lookalikes :
    let params : List Ty := [.ref (.struct ⟨1⟩) true]
    let a : Ty := .fn params (.ref (.typeParam ⟨0⟩) false)
    let b : Ty := .fn params .unit
    a.text lookalikes = "fn(&mut i8x) -> &mut" ∧ b.text lookalikes = "fn(&mut i8x)" ∧
      a.Formed lookalikes ∧ b.Formed lookalikes ∧ lookalikes.Legible (a.decls ++ b.decls) ∧
      (a.text lookalikes = b.text lookalikes ↔ a = b) := by
  intro params a b
  have hparams : ∀ ty ∈ params, ty.Formed lookalikes := by
    intro ty hty
    rw [List.mem_singleton.mp hty]
    exact .ref true (.struct rfl)
  have ha : a.Formed lookalikes := .fn hparams (.ref false (.typeParam rfl))
  have hb : b.Formed lookalikes := .fn hparams .unit
  have hdecls : a.decls ++ b.decls = [⟨1⟩, ⟨0⟩, ⟨1⟩] := by
    simp [a, b, params, Ty.decls, Ty.declsAll]
  have hl : lookalikes.Legible (a.decls ++ b.decls) := hdecls ▸ legible_lookalikes
  obtain ⟨hmut, hstruct⟩ := declText_lookalikes
  refine ⟨?_, ?_, ha, hb, hl, text_determines_type ha hb hl⟩
  · simp [a, params, Ty.text, Ty.texts, Text.listing, refMark, Ty.isUnit, hmut, hstruct]
  · simp [b, params, Ty.text, Ty.texts, Text.listing, refMark, Ty.isUnit, hstruct]

end TypeDerivation
