import TypeDerivation.Derivation.Pattern
import TypeDerivation.Ty.Primitive

namespace TypeDerivation

/-- A type in which no tuple is empty and every nominal type names a declaration of its sort. -/
inductive Ty.Formed (t : SyntaxTree) : Ty → Prop where
  | unknown : Formed t .unknown
  | unit : Formed t .unit
  | bool : Formed t .bool
  | char : Formed t .char
  | str : Formed t .str
  | int (kind : IntKind) : Formed t (.int kind)
  | float (kind : FloatKind) : Formed t (.float kind)
  | tuple {elems : List Ty} : elems ≠ [] → (∀ ty ∈ elems, Formed t ty) → Formed t (.tuple elems)
  | ref {inner : Ty} (mutable : Bool) : Formed t inner → Formed t (.ref inner mutable)
  | struct {decl : NodeId} {name : Name} {generics fields : List NodeId} :
    t.kind? decl = some (.item (.struct name generics fields)) → Formed t (.struct decl)
  | enum {decl : NodeId} {name : Name} {generics : List NodeId} {body : Option NodeId} :
    t.kind? decl = some (.item (.enum name generics body)) → Formed t (.enum decl)
  | trait {decl : NodeId} {name : Name} {generics members : List NodeId} :
    t.kind? decl = some (.item (.trait name generics members)) → Formed t (.trait decl)
  | fn {params : List Ty} {ret : Ty} :
    (∀ ty ∈ params, Formed t ty) → Formed t ret → Formed t (.fn params ret)
  | typeParam {decl : NodeId} {name : Name} :
    t.kind? decl = some (.decl (.typeParam name)) → Formed t (.typeParam decl)

namespace Ty

variable {t : SyntaxTree} {ty : Ty}

theorem formed_ofElems {elems : List Ty} (h : ∀ ty ∈ elems, Formed t ty) :
    Formed t (ofElems elems) := by
  cases elems with
  | nil => exact .unit
  | cons ty rest => exact .tuple (by simp) h

theorem formed_ofNumeric (kind : NumericKind) : Formed t (ofNumeric kind) := by
  cases kind with
  | int k => exact .int k
  | float k => exact .float k

theorem formed_toTy (p : Primitive) : Formed t p.toTy := by
  cases p with
  | bool => exact .bool
  | char => exact .char
  | str => exact .str
  | int k => exact .int k
  | float k => exact .float k

theorem Formed.ret (h : Formed t ty) : Formed t (ty.ret?.getD .unknown) := by
  cases h with
  | fn _ hr => exact hr
  | _ => exact .unknown

/-- A property that a type has if and only if its parts have it, as far as patterns take types
apart. -/
structure Hereditary (W : Ty → Prop) : Prop where
  unknown : W .unknown
  ref_iff : ∀ {inner : Ty} {mutable : Bool}, W (.ref inner mutable) ↔ W inner
  elem : ∀ {elems : List Ty}, W (.tuple elems) → ∀ ty ∈ elems, W ty

theorem hereditary_formed (t : SyntaxTree) : Hereditary (Formed t) := by
  refine ⟨.unknown, ?_, ?_⟩
  · intro inner mutable
    constructor
    · intro h
      cases h with
      | ref _ hi => exact hi
    · exact .ref mutable
  · intro elems h
    cases h with
    | tuple _ he => exact he

theorem hereditary_true : Hereditary fun _ => True :=
  ⟨trivial, Iff.rfl, fun _ _ _ => trivial⟩

namespace Hereditary

variable {W : Ty → Prop} {s s' : Place} (hW : Hereditary W)
include hW

theorem lookThrough (h : W ty) (mode : Option Bool) : W (Place.lookThrough ty mode).ty := by
  induction ty, mode using Place.lookThrough.induct with
  | case1 mode inner mutable ih =>
    rw [Place.lookThrough]
    exact ih (hW.ref_iff.mp h)
  | case2 ty mode hne =>
    rw [Place.lookThrough]
    · exact h
    · exact hne

theorem opened (h : W s.ty) : W s.opened.ty := hW.lookThrough h s.mode

theorem bound (h : W s.ty) (byRef mutable : Bool) : W (s.bound byRef mutable) := by
  rw [Place.bound]
  split
  · exact hW.ref_iff.mpr h
  · cases s.mode with
    | none => exact h
    | some m => exact hW.ref_iff.mpr h

theorem referred (h : W s.ty) (hs : s.referred? = some s') : W s'.ty := by
  rw [Place.referred?] at hs
  split at hs
  · rename_i inner _ he
    cases hs
    rw [he] at h
    exact hW.ref_iff.mp h
  · cases hs

end Hereditary
end Ty

end TypeDerivation
