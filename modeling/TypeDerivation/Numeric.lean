namespace TypeDerivation

inductive IntKind where
  | i8 | i16 | i32 | i64 | i128 | isize
  | u8 | u16 | u32 | u64 | u128 | usize
deriving DecidableEq, Inhabited

namespace IntKind

def all : List IntKind :=
  [i8, i16, i32, i64, i128, isize, u8, u16, u32, u64, u128, usize]

def spelling : IntKind → String
  | i8 => "i8" | i16 => "i16" | i32 => "i32" | i64 => "i64" | i128 => "i128" | isize => "isize"
  | u8 => "u8" | u16 => "u16" | u32 => "u32" | u64 => "u64" | u128 => "u128" | usize => "usize"

def ofSpelling? (s : String) : Option IntKind := all.find? (·.spelling == s)

def isSigned : IntKind → Bool
  | i8 | i16 | i32 | i64 | i128 | isize => true
  | u8 | u16 | u32 | u64 | u128 | usize => false

theorem mem_all (k : IntKind) : k ∈ all := by cases k <;> decide

end IntKind

inductive FloatKind where
  | f32 | f64
deriving DecidableEq, Inhabited

namespace FloatKind

def all : List FloatKind := [f32, f64]

def spelling : FloatKind → String
  | f32 => "f32" | f64 => "f64"

def ofSpelling? (s : String) : Option FloatKind := all.find? (·.spelling == s)

end FloatKind

inductive NumericKind where
  | int (kind : IntKind)
  | float (kind : FloatKind)
deriving DecidableEq, Inhabited

namespace NumericKind

def spelling : NumericKind → String
  | int k => k.spelling
  | float k => k.spelling

def ofSpelling? (s : String) : Option NumericKind :=
  ((IntKind.ofSpelling? s).map int).or ((FloatKind.ofSpelling? s).map float)

end NumericKind

end TypeDerivation
