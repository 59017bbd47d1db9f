namespace TypeDerivation.Text

def isBlank (c : Char) : Bool :=
  let n := c.toNat
  (9 ≤ n && n ≤ 13) || n == 0x20 || n == 0x85 || n == 0xA0 || n == 0x1680 ||
    (0x2000 ≤ n && n ≤ 0x200A) || n == 0x2028 || n == 0x2029 || n == 0x202F ||
    n == 0x205F || n == 0x3000

theorem isBlank_of_isWhitespace {c : Char} (h : c.isWhitespace = true) : isBlank c = true := by
  simp only [Char.isWhitespace, Bool.or_eq_true, decide_eq_true_eq] at h
  rcases h with ((rfl | rfl) | rfl) | rfl <;> rfl

/-- The text without the characters at its end that satisfy `p`. -/
def dropTrailing (p : Char → Bool) (cs : List Char) : List Char :=
  (cs.reverse.dropWhile p).reverse

/-- The text without the blanks at its two ends. -/
def trim (cs : List Char) : List Char :=
  dropTrailing isBlank (cs.dropWhile isBlank)

@[simp] theorem dropTrailing_nil (p : Char → Bool) : dropTrailing p [] = [] := rfl

theorem dropTrailing_append_takeWhile (p : Char → Bool) (cs : List Char) :
    dropTrailing p cs ++ (cs.reverse.takeWhile p).reverse = cs := by
  rw [dropTrailing, ← List.reverse_append, List.takeWhile_append_dropWhile, List.reverse_reverse]

@[simp] theorem trim_nil : trim [] = [] := rfl

end TypeDerivation.Text
