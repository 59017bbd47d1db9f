namespace TypeDerivation

/-- A half-open stretch of source offsets. -/
structure Span where
  start : Nat
  stop : Nat
deriving DecidableEq, Inhabited

namespace Span

def dummy : Span := ⟨0, 0⟩

/-- An inverted stretch has length zero. -/
def length (s : Span) : Nat := s.stop - s.start

def isEmpty (s : Span) : Bool := s.stop ≤ s.start

def contains (s : Span) (offset : Nat) : Bool := s.start ≤ offset && offset < s.stop

def merge (a b : Span) : Span := ⟨min a.start b.start, max a.stop b.stop⟩

/-- The merge of the stretches that are not empty. -/
def hull (spans : List Span) : Span :=
  match spans.filter (!·.isEmpty) with
  | [] => dummy
  | s :: rest => rest.foldl merge s

def debugText (s : Span) : String := toString s.start ++ ".." ++ toString s.stop

theorem contains_iff {s : Span} {offset : Nat} :
    s.contains offset = true ↔ s.start ≤ offset ∧ offset < s.stop := by
  simp [contains]

theorem isEmpty_iff {s : Span} : s.isEmpty = true ↔ s.stop ≤ s.start := by
  simp [isEmpty]

theorem contains_merge_left {a : Span} (b : Span) {offset : Nat} (h : a.contains offset = true) :
    (a.merge b).contains offset = true := by
  rw [contains_iff] at *
  simp only [merge]
  omega

end Span
end TypeDerivation
