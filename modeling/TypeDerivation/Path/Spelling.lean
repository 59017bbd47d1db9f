import TypeDerivation.Path
import TypeDerivation.Text.Blank

namespace TypeDerivation

namespace SymbolPath

/-- The pieces of a text between double colons, which are found from left to right. -/
def pieces : List Char → List (List Char)
  | [] => [[]]
  | ':' :: ':' :: rest => [] :: pieces rest
  | c :: rest =>
    match pieces rest with
    | [] => [[c]]
    | piece :: others => (c :: piece) :: others

/-- The pieces that are more than blanks, without the blanks around them. -/
def words (text : String) : List String :=
  ((pieces text.toList).map Text.trim).filter (!·.isEmpty) |>.map String.ofList

/-- A keyword is special only at the head of a path. -/
def headOf (names : NameTable) : String → PathHead × NameTable
  | "self" => (.selfValue, names)
  | "Self" => (.selfType, names)
  | "super" => (.superModule, names)
  | "crate" => (.crateRoot, names)
  | word =>
    let (n, names) := names.intern word
    (.named n, names)

/-- Reads a path, the head before the segments. A text without a word is the empty name. -/
def parse (names : NameTable) (text : String) : SymbolPath × NameTable :=
  match words text with
  | [] => (single .empty, names)
  | word :: rest =>
    let (head, names) := headOf names word
    let (segments, names) := names.internAll rest
    (⟨head, segments⟩, names)

end SymbolPath

def PathHead.render (names : NameTable) : PathHead → String
  | .named n => names.text n
  | .selfValue => "self"
  | .selfType => "Self"
  | .superModule => "super"
  | .crateRoot => "crate"

namespace SymbolPath

def renderSegments (names : NameTable) : List Name → String
  | [] => ""
  | n :: rest => "::" ++ names.text n ++ renderSegments names rest

def render (names : NameTable) (p : SymbolPath) : String :=
  p.head.render names ++ renderSegments names p.segments

theorem pieces_ne_nil (cs : List Char) : pieces cs ≠ [] := by
  fun_cases pieces cs with
  | case1 => simp
  | case2 => simp
  | case3 => simp
  | case4 => simp

/-- The words that are no names at the head of a path. -/
def keywords : List String := ["self", "Self", "super", "crate"]

/-- The words that have a name in the path. -/
def namedWords : List String → List String
  | [] => []
  | word :: rest => if word ∈ keywords then rest else word :: rest

variable {names : NameTable} {text : String}

theorem headOf_cases (word : String) :
    (word ∈ keywords ∧ ∃ head, (∀ names, headOf names word = (head, names)) ∧
      (∀ n, head ≠ .named n) ∧ ∀ names, head.render names = word) ∨
    (word ∉ keywords ∧ ∀ names,
      headOf names word = (.named (names.intern word).1, (names.intern word).2)) := by
  by_cases h : word ∈ keywords
  · refine .inl ⟨h, ?_⟩
    simp only [keywords, List.mem_cons, List.not_mem_nil, or_false] at h
    rcases h with rfl | rfl | rfl | rfl
    · exact ⟨.selfValue, fun _ => rfl, by simp, fun _ => rfl⟩
    · exact ⟨.selfType, fun _ => rfl, by simp, fun _ => rfl⟩
    · exact ⟨.superModule, fun _ => rfl, by simp, fun _ => rfl⟩
    · exact ⟨.crateRoot, fun _ => rfl, by simp, fun _ => rfl⟩
  · refine .inr ⟨h, fun names => ?_⟩
    rw [headOf.eq_def]
    split
    · exact absurd (by decide) h
    · exact absurd (by decide) h
    · exact absurd (by decide) h
    · exact absurd (by decide) h
    · rfl

theorem parse_of_words_nil (h : words text = []) : parse names text = (single .empty, names) := by
  rw [parse, h]

/-- The names in a path are those of its words, given out from the first to the last. -/
theorem names_parse (names : NameTable) (h : words text ≠ []) :
    ((parse names text).1.names, (parse names text).2) =
      names.internAll (namedWords (words text)) := by
  rw [parse]
  cases hw : words text with
  | nil => exact absurd hw h
  | cons word rest =>
    rcases headOf_cases word with ⟨hmem, head, hhead, hname, -⟩ | ⟨hmem, hhead⟩
    · have hnames (ns : List Name) : (⟨head, ns⟩ : SymbolPath).names = ns := by
        cases head with
        | named n => exact absurd rfl (hname n)
        | selfValue | selfType | superModule | crateRoot => rfl
      simp only [hhead, hnames, namedWords, if_pos hmem]
    · simp only [hhead, namedWords, if_neg hmem, SymbolPath.names, NameTable.internAll]

theorem table_parse (names : NameTable) (text : String) :
    (parse names text).2 = (names.internAll (namedWords (words text))).2 := by
  by_cases hw : words text = []
  · rw [parse_of_words_nil hw, hw]
    rfl
  · exact congrArg Prod.snd (names_parse names hw)

end SymbolPath
end TypeDerivation
