import TypeDerivation.Name

namespace TypeDerivation

inductive PathHead where
  | named (name : Name)
  | selfValue
  | selfType
  | superModule
  | crateRoot
deriving DecidableEq, Inhabited

structure SymbolPath where
  head : PathHead
  segments : List Name
deriving DecidableEq, Inhabited

namespace SymbolPath

def single (n : Name) : SymbolPath := ⟨.named n, []⟩

/-- The names in a path, in the order in which they are written. -/
def names (p : SymbolPath) : List Name :=
  match p.head with
  | .named n => n :: p.segments
  | _ => p.segments

def singleName? (p : SymbolPath) : Option Name :=
  match p.head, p.segments with
  | .named n, [] => some n
  | _, _ => none

def isSingleName (p : SymbolPath) : Bool := p.singleName?.isSome

def lastName? (p : SymbolPath) : Option Name :=
  match p.segments.getLast?, p.head with
  | some n, _ => some n
  | none, .named n => some n
  | none, _ => none

def isBareSelfType (p : SymbolPath) : Bool := p.head = .selfType && p.segments.isEmpty

def isBareSelfValue (p : SymbolPath) : Bool := p.head = .selfValue && p.segments.isEmpty

theorem singleName?_eq_some_iff {p : SymbolPath} {n : Name} :
    p.singleName? = some n ↔ p = single n := by
  obtain ⟨head, segments⟩ := p
  cases head <;> cases segments <;> simp [singleName?, single]

end SymbolPath
end TypeDerivation
