import Std.Data.TreeMap

namespace TypeDerivation

/-- The number that a name table has given to a text. -/
structure Name where
  raw : Nat
deriving DecidableEq, Inhabited

/-- The empty text, which every table holds first. -/
def Name.empty : Name := ⟨0⟩

def Name.debugText (n : Name) : String := "Name(" ++ toString n.raw ++ ")"

/-- Numbers are words of 32 bits. -/
def Name.largest : Nat := 0xFFFFFFFF

inductive InternError where
  | overflow (count : Nat)
deriving DecidableEq, Inhabited

def InternError.message : InternError → String
  | overflow count =>
    "interner exceeded capacity: " ++ toString count ++ " strings, max is " ++ toString Name.largest

/-- The texts that have a number, in the order of their numbers, and the way back. -/
structure NameTable where
  texts : Array String
  index : Std.TreeMap String Name

namespace NameTable

def blank : NameTable := ⟨#[], ∅⟩

def size (t : NameTable) : Nat := t.texts.size

def get? (t : NameTable) (s : String) : Option Name := t.index[s]?

/-- The text of a name; a number that was never given out has the empty text. -/
def text (t : NameTable) (n : Name) : String := t.texts[n.raw]?.getD ""

/-- A text that is new gets the next number. -/
def intern (t : NameTable) (s : String) : Name × NameTable :=
  match t.get? s with
  | some n => (n, t)
  | none => (⟨t.size⟩, ⟨t.texts.push s, t.index.insert s ⟨t.size⟩⟩)

/-- As `intern`, but a new text fails when there is no number left for it. -/
def tryIntern (t : NameTable) (s : String) : Except InternError Name × NameTable :=
  if (t.get? s).isNone && Name.largest < t.size then (.error (.overflow t.size), t)
  else
    let (n, t) := t.intern s
    (.ok n, t)

def internAll (t : NameTable) : List String → List Name × NameTable
  | [] => ([], t)
  | s :: rest =>
    let (n, t) := t.intern s
    let (ns, t) := t.internAll rest
    (n :: ns, t)

def reserved : List String := ["", "self", "Self", "super", "crate", "true", "false"]

def initial : NameTable := (blank.internAll reserved).2

def isEmpty (t : NameTable) : Bool := t.size ≤ 1

def debugText (t : NameTable) : String := "StringInterner(" ++ toString t.size ++ " strings)"

variable {t : NameTable} {s : String} {n : Name}

theorem intern_of_get? (h : t.get? s = some n) : t.intern s = (n, t) := by
  simp [intern, h]

theorem intern_of_get?_eq_none (h : t.get? s = none) :
    t.intern s = (⟨t.size⟩, ⟨t.texts.push s, t.index.insert s ⟨t.size⟩⟩) := by
  simp [intern, h]

theorem fst_intern (t : NameTable) (s : String) :
    (t.intern s).1 = (t.get? s).getD ⟨t.size⟩ := by
  cases h : t.get? s with
  | some n => rw [intern_of_get? h, Option.getD_some]
  | none => rw [intern_of_get?_eq_none h, Option.getD_none]

theorem texts_snd_intern (t : NameTable) (s : String) :
    (t.intern s).2.texts = if (t.get? s).isSome then t.texts else t.texts.push s := by
  cases h : t.get? s with
  | some n => rw [intern_of_get? h, Option.isSome_some, if_pos rfl]
  | none => rw [intern_of_get?_eq_none h, Option.isSome_none, if_neg Bool.false_ne_true]

@[simp] theorem get?_intern_self : (t.intern s).2.get? s = some (t.intern s).1 := by
  cases h : t.get? s with
  | some n => simp [intern_of_get? h, h]
  | none => simp [intern_of_get?_eq_none h, get?]

theorem tryIntern_cases (t : NameTable) (s : String) :
    t.tryIntern s = (.ok (t.intern s).1, (t.intern s).2) ∨
      Name.largest < t.size ∧ t.tryIntern s = (.error (.overflow t.size), t) := by
  rw [tryIntern]
  split
  · rename_i h
    exact .inr ⟨by simpa using (Bool.and_eq_true_iff.mp h).2, rfl⟩
  · exact .inl rfl

theorem tryIntern_of_size_le (h : t.size ≤ Name.largest) (s : String) :
    t.tryIntern s = (.ok (t.intern s).1, (t.intern s).2) := by
  rcases t.tryIntern_cases s with he | ⟨hfull, -⟩
  · exact he
  · exact absurd h (Nat.not_le_of_lt hfull)

theorem text_of_size_le (h : t.size ≤ n.raw) : t.text n = "" := by
  rw [text, Array.getElem?_eq_none h]
  rfl

end NameTable
end TypeDerivation
