import TypeDerivation.Text.Listing

/-!
The words in the text of a type, and what can stand after a word, after a type and after a listing.
-/

namespace TypeDerivation.Text

/-- Letters, digits and the underscore. Beyond ASCII every character counts as a letter. -/
def isWordChar (c : Char) : Bool := c.isAlphanum || c = '_' || 0x7F < c.toNat

structure IsWord (w : String) : Prop where
  ne_empty : w ≠ ""
  all : w.toList.all isWordChar = true

instance (w : String) : Decidable (IsWord w) :=
  decidable_of_iff (w ≠ "" ∧ w.toList.all isWordChar = true)
    ⟨fun h => ⟨h.1, h.2⟩, fun h => ⟨h.ne_empty, h.all⟩⟩

variable {w w' : String} {r s u : List Char}

def Stops (r : List Char) : Prop := ∀ c ∈ r.head?, isWordChar c = false

/-- What can stand after a type: nothing, or what follows an entry of a listing. -/
def Closes (r : List Char) : Prop := ∀ c ∈ r.head?, c = ',' ∨ c = ')'

def Ends (r : List Char) : Prop := ∃ s, r = ')' :: s ∨ r = ',' :: ')' :: s

theorem Closes.stops (h : Closes r) : Stops r := by
  intro c hc
  rcases h c hc with rfl | rfl <;> decide

theorem Closes.ne_blank (h : Closes r) : r ≠ ' ' :: s := by
  rintro rfl
  rcases h ' ' rfl with h | h <;> cases h

theorem Ends.closes (h : Ends r) : Closes r := by
  obtain ⟨s, rfl | rfl⟩ := h <;> simp [Closes]

theorem Ends.ne_separated (h : Ends r) : r ≠ ',' :: ' ' :: s := by
  obtain ⟨s, rfl | rfl⟩ := h <;> simp

theorem closes_nil : Closes [] := by simp [Closes]

theorem closes_comma (r : List Char) : Closes (',' :: r) := by simp [Closes]

theorem stops_cons {c : Char} (h : isWordChar c = false) : Stops (c :: r) := by
  simpa [Stops] using h

theorem Stops.takeWhile (h : Stops r) : r.takeWhile isWordChar = [] := by
  cases r with
  | nil => rfl
  | cons c r => simp [h c rfl]

theorem Stops.dropWhile (h : Stops r) : r.dropWhile isWordChar = r := by
  cases r with
  | nil => rfl
  | cons c r => simp [h c rfl]

theorem IsWord.takeWhile (h : IsWord w) (hr : Stops r) :
    (w.toList ++ r).takeWhile isWordChar = w.toList := by
  rw [List.takeWhile_append_of_pos (List.all_eq_true.mp h.all), hr.takeWhile, List.append_nil]

theorem IsWord.dropWhile (h : IsWord w) (hr : Stops r) :
    (w.toList ++ r).dropWhile isWordChar = r := by
  rw [List.dropWhile_append_of_pos (List.all_eq_true.mp h.all), hr.dropWhile]

theorem IsWord.unique (h : IsWord w) (h' : IsWord w') (hr : Stops r) (hs : Stops s)
    (he : w.toList ++ r = w'.toList ++ s) : w = w' ∧ r = s := by
  -- a word goes on up to the first mark
  constructor
  · rw [← String.toList_inj, ← h.takeWhile hr, he, h'.takeWhile hs]
  · rw [← h.dropWhile hr, he, h'.dropWhile hs]

theorem IsWord.ne_mark {m : Char} (h : IsWord w) (hm : isWordChar m = false) :
    w.toList ++ r ≠ m :: s := by
  intro he
  cases hw : w.toList with
  | nil => exact h.ne_empty (String.toList_eq_nil_iff.mp hw)
  | cons c cs =>
    rw [hw, List.cons_append] at he
    have hc := List.all_eq_true.mp h.all c (by simp [hw])
    rw [(List.cons.inj he).1, hm] at hc
    cases hc

theorem toList_listing (s : String) (rest : List String) :
    (listing (s :: rest)).toList =
      s.toList ++ rest.flatMap fun w => ',' :: ' ' :: w.toList := by
  induction rest generalizing s with
  | nil => simp [listing]
  | cons w rest ih => simp [listing, ih]

end TypeDerivation.Text
