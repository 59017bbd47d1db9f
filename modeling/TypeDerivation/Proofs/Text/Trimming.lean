import Mathlib.Data.List.DropRight
import TypeDerivation.Text.Blank

namespace TypeDerivation.Text

variable {p : Char → Bool} {cs front tail : List Char}

theorem dropTrailing_eq_rdropWhile (p : Char → Bool) (cs : List Char) :
    dropTrailing p cs = cs.rdropWhile p := rfl

theorem dropTrailing_isPrefix (p : Char → Bool) (cs : List Char) : dropTrailing p cs <+: cs :=
  List.rdropWhile_prefix p cs

theorem dropTrailing_append (h : ∀ c ∈ tail, p c = true) :
    dropTrailing p (front ++ tail) = dropTrailing p front := by
  rw [dropTrailing, List.reverse_append, List.dropWhile_append_of_pos, dropTrailing]
  simpa using h

theorem dropTrailing_eq_self_iff :
    dropTrailing p cs = cs ↔ ∀ c ∈ cs.getLast?, p c = false := by
  rw [dropTrailing_eq_rdropWhile, List.rdropWhile_eq_self_iff]
  cases cs using List.reverseRecOn with
  | nil => simp
  | append_singleton cs c => simp

/-- What is left is all up to the last character that does not satisfy `p`. -/
theorem dropTrailing_eq_iff : dropTrailing p cs = front ↔
    (∀ c ∈ front.getLast?, p c = false) ∧ ∃ tail, (∀ c ∈ tail, p c = true) ∧ cs = front ++ tail := by
  constructor
  · rintro rfl
    refine ⟨dropTrailing_eq_self_iff.mp (List.rdropWhile_idempotent p cs), ?_⟩
    refine ⟨(cs.reverse.takeWhile p).reverse, ?_, (dropTrailing_append_takeWhile p cs).symm⟩
    intro c hc
    exact List.all_eq_true.mp List.all_takeWhile c (List.mem_reverse.mp hc)
  · rintro ⟨hfront, tail, htail, rfl⟩
    rw [dropTrailing_append htail, dropTrailing_eq_self_iff.mpr hfront]

theorem trim_sublist (cs : List Char) : (trim cs).Sublist cs :=
  (dropTrailing_isPrefix _ _).sublist.trans (List.dropWhile_sublist _)

theorem trim_trim (cs : List Char) : trim (trim cs) = trim cs := by
  have hprefix := dropTrailing_isPrefix isBlank (cs.dropWhile isBlank)
  have hfront : (trim cs).dropWhile isBlank = trim cs := by
    rw [List.dropWhile_eq_self_iff]
    intro hl
    have hfirst : (trim cs)[0] = _ := hprefix.getElem hl
    rw [hfirst]
    exact List.dropWhile_get_zero_not isBlank cs _
  have hlast : dropTrailing isBlank (trim cs) = trim cs :=
    List.rdropWhile_idempotent isBlank (cs.dropWhile isBlank)
  rw [trim, hfront, hlast]

end TypeDerivation.Text
