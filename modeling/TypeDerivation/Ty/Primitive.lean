import Std.Data.TreeMap
import TypeDerivation.Ty

namespace TypeDerivation

inductive Primitive where
  | bool
  | char
  | str
  | int (kind : IntKind)
  | float (kind : FloatKind)
deriving DecidableEq, Inhabited

namespace Primitive

def toTy : Primitive → Ty
  | bool => .bool
  | char => .char
  | str => .str
  | int k => .int k
  | float k => .float k

def spelling : Primitive → String
  | bool => "bool"
  | char => "char"
  | str => "str"
  | int k => k.spelling
  | float k => k.spelling

def all : List Primitive :=
  [bool, char, str] ++ IntKind.all.map int ++ FloatKind.all.map float

theorem mem_all (p : Primitive) : p ∈ all := by
  cases p with
  | bool | char | str => decide
  | int k => cases k <;> decide
  | float k => cases k <;> decide

theorem spelling_injective {p q : Primitive} (h : p.spelling = q.spelling) : p = q := by
  have hall : ∀ p ∈ all, ∀ q ∈ all, p.spelling = q.spelling → p = q := by decide
  exact hall p p.mem_all q q.mem_all h

end Primitive

structure PrimitiveTable where
  entries : Std.TreeMap String Primitive

namespace PrimitiveTable

def empty : PrimitiveTable := ⟨∅⟩

def get? (t : PrimitiveTable) (word : String) : Option Primitive := t.entries[word]?

def insert (t : PrimitiveTable) (word : String) (p : Primitive) : PrimitiveTable :=
  ⟨t.entries.insert word p⟩

def erase (t : PrimitiveTable) (word : String) : PrimitiveTable := ⟨t.entries.erase word⟩

def size (t : PrimitiveTable) : Nat := t.entries.size

def isEmpty (t : PrimitiveTable) : Bool := t.entries.isEmpty

def standard : PrimitiveTable :=
  Primitive.all.foldl (fun t p => t.insert p.spelling p) empty

def isStandard (t : PrimitiveTable) : Bool := t.entries.toList = standard.entries.toList

theorem get?_insert (t : PrimitiveTable) (word other : String) (p : Primitive) :
    (t.insert word p).get? other = if word = other then some p else t.get? other := by
  simp [get?, insert, Std.TreeMap.getElem?_insert]

theorem get?_erase (t : PrimitiveTable) (word other : String) :
    (t.erase word).get? other = if word = other then none else t.get? other := by
  simp [get?, erase, Std.TreeMap.getElem?_erase]

theorem get?_foldl_insert_iff {ps : List Primitive} {t : PrimitiveTable} {word : String}
    {p : Primitive} (ht : ∀ q, t.get? word = some q → q.spelling = word) :
    (ps.foldl (fun t q => t.insert q.spelling q) t).get? word = some p ↔
      p.spelling = word ∧ (p ∈ ps ∨ t.get? word = some p) := by
  induction ps generalizing t with
  | nil => simpa using ht p
  | cons q ps ih =>
    rw [List.foldl_cons, ih, List.mem_cons]
    · rw [get?_insert]
      grind [Primitive.spelling_injective]
    · intro r hr
      rw [get?_insert] at hr
      grind

theorem get?_standard_iff {word : String} {p : Primitive} :
    standard.get? word = some p ↔ p.spelling = word := by
  rw [standard, get?_foldl_insert_iff (by simp [get?, empty])]
  exact and_iff_left (.inl p.mem_all)

end PrimitiveTable
end TypeDerivation
