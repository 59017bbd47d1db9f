import TypeDerivation.Node.Id
import TypeDerivation.Numeric

namespace TypeDerivation

/-- A type. A nominal type is known by the node that declares it. -/
inductive Ty where
  | unknown
  | unit
  | bool
  | char
  | str
  | int (kind : IntKind)
  | float (kind : FloatKind)
  | tuple (elems : List Ty)
  | ref (inner : Ty) (mutable : Bool)
  | struct (decl : NodeId)
  | enum (decl : NodeId)
  | trait (decl : NodeId)
  | fn (params : List Ty) (ret : Ty)
  | typeParam (decl : NodeId)
deriving Inhabited

namespace Ty

/-- A tuple without entries is the unit type. -/
def ofElems : List Ty → Ty
  | [] => unit
  | elems => tuple elems

def ofNumeric : NumericKind → Ty
  | .int k => int k
  | .float k => float k

def isUnknown : Ty → Bool
  | unknown => true
  | _ => false

def isUnit : Ty → Bool
  | unit => true
  | _ => false

def ret? : Ty → Option Ty
  | fn _ ret => some ret
  | _ => none

def decl? : Ty → Option NodeId
  | struct d | enum d | trait d | typeParam d => some d
  | _ => none

def referent : Ty → Ty
  | ref inner _ => inner.referent
  | ty => ty

mutual

def height : Ty → Nat
  | tuple elems => 1 + heightAll elems
  | ref inner _ => 1 + inner.height
  | fn params ret => 1 + max (heightAll params) ret.height
  | _ => 1

def heightAll : List Ty → Nat
  | [] => 0
  | ty :: rest => max ty.height (heightAll rest)

end

mutual

def same : Ty → Ty → Bool
  | unknown, unknown | unit, unit | bool, bool | char, char | str, str => true
  | int a, int b => a = b
  | float a, float b => a = b
  | tuple as, tuple bs => sameAll as bs
  | ref a m, ref b n => m = n && same a b
  | struct a, struct b => a = b
  | enum a, enum b => a = b
  | trait a, trait b => a = b
  | fn as a, fn bs b => sameAll as bs && same a b
  | typeParam a, typeParam b => a = b
  | _, _ => false

def sameAll : List Ty → List Ty → Bool
  | [], [] => true
  | a :: as, b :: bs => same a b && sameAll as bs
  | _, _ => false

end

mutual

theorem same_refl : ∀ a : Ty, same a a = true
  | unknown | unit | bool | char | str => by simp [same]
  | int _ | float _ | struct _ | enum _ | trait _ | typeParam _ => by simp [same]
  | tuple as => by simp [same, sameAll_refl as]
  | ref a _ => by simp [same, same_refl a]
  | fn as a => by simp [same, sameAll_refl as, same_refl a]

theorem sameAll_refl : ∀ as : List Ty, sameAll as as = true
  | [] => by simp [sameAll]
  | a :: as => by simp [sameAll, same_refl a, sameAll_refl as]

end

mutual

theorem eq_of_same : ∀ {a b : Ty}, same a b = true → a = b
  | unknown, b, h | unit, b, h | bool, b, h | char, b, h | str, b, h => by
    cases b <;> simp_all [same]
  | int _, b, h | float _, b, h | struct _, b, h | enum _, b, h | trait _, b, h
  | typeParam _, b, h => by cases b <;> simp_all [same]
  | tuple as, b, h => by
    cases b <;> simp only [same, Bool.false_eq_true] at h
    rw [eq_of_sameAll h]
  | ref a _, b, h => by
    cases b <;> simp only [same, Bool.false_eq_true, Bool.and_eq_true, decide_eq_true_eq] at h
    rw [h.1, eq_of_same h.2]
  | fn as a, b, h => by
    cases b <;> simp only [same, Bool.false_eq_true, Bool.and_eq_true] at h
    rw [eq_of_sameAll h.1, eq_of_same h.2]

theorem eq_of_sameAll : ∀ {as bs : List Ty}, sameAll as bs = true → as = bs
  | [], bs, h => by cases bs <;> simp_all [sameAll]
  | a :: as, bs, h => by
    cases bs <;> simp only [sameAll, Bool.false_eq_true, Bool.and_eq_true] at h
    rw [eq_of_same h.1, eq_of_sameAll h.2]

end

theorem same_iff {a b : Ty} : same a b = true ↔ a = b :=
  ⟨eq_of_same, fun h => h ▸ same_refl a⟩

instance : DecidableEq Ty := fun _ _ => decidable_of_iff _ same_iff

theorem ofElems_of_ne_nil {elems : List Ty} (h : elems ≠ []) : ofElems elems = tuple elems := by
  cases elems with
  | nil => exact absurd rfl h
  | cons ty rest => rfl

theorem isUnit_iff {ty : Ty} : ty.isUnit = true ↔ ty = unit := by
  cases ty <;> simp [isUnit]

end Ty
end TypeDerivation
