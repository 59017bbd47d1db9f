import TypeDerivation.Numeric
import TypeDerivation.Text.Blank

namespace TypeDerivation

/-- A number as it was written: its digits, and the kind that its suffix names. -/
structure Numeral where
  digits : String
  suffix : Option NumericKind
deriving DecidableEq, Inhabited

namespace Numeral

/-- The suffixes of integers, the longer spellings first. -/
def intSuffixes : List NumericKind :=
  [IntKind.i128, .u128, .isize, .usize, .i16, .i32, .i64, .u16, .u32, .u64, .i8, .u8].map .int

def floatSuffixes : List NumericKind := FloatKind.all.map .float

/-- What stands before the suffix `s`, if the text ends in `s`. -/
def stem? (cs s : List Char) : Option (List Char) :=
  if s.isSuffixOf cs then some (cs.take (cs.length - s.length)) else none

/-- The stem before the suffix `k`. A suffix needs a digit somewhere before it. -/
def stemBefore? (cs : List Char) (k : NumericKind) : Option (List Char) :=
  (stem? cs k.spelling.toList).filter (·.any Char.isDigit)

/-- Takes the first candidate that ends the text; underscores before it belong to neither part. -/
def split (candidates : List NumericKind) (text : String) : Numeral :=
  match candidates.findSome? fun k => (stemBefore? text.toList k).map (·, k) with
  | some (stem, k) => ⟨String.ofList (Text.dropTrailing (· == '_') stem), some k⟩
  | none => ⟨text, none⟩

def isHex (cs : List Char) : Bool :=
  ['0', 'x'].isPrefixOf cs || ['0', 'X'].isPrefixOf cs

/-- An integer may have the suffix of a float, unless it is hexadecimal: there `f32` is digits. -/
def ofInt (text : String) : Numeral :=
  split (intSuffixes ++ if isHex text.toList then [] else floatSuffixes) text

def ofFloat (text : String) : Numeral := split floatSuffixes text

theorem stem?_eq_some_iff {cs s stem : List Char} : stem? cs s = some stem ↔ cs = stem ++ s := by
  rw [stem?]
  split
  · rename_i h
    obtain ⟨front, rfl⟩ := List.isSuffixOf_iff_suffix.1 h
    simp [eq_comm]
  · rename_i h
    simp only [reduceCtorEq, false_iff]
    rintro rfl
    exact h (List.isSuffixOf_iff_suffix.2 (List.suffix_append stem s))

end Numeral
end TypeDerivation
