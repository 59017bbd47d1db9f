import TypeDerivation.Derivation.Pattern
import TypeDerivation.Proofs.Relabelling.Tree
import TypeDerivation.Proofs.Ty.Formed
import TypeDerivation.Ty.Text

/-!
Types under other numbers for the declarations in them, and their texts, which do not change.
-/

namespace TypeDerivation

namespace Ty

section

variable (ρ : Relabelling)

mutual

@[simp] def relabel : Ty → Ty
  | unknown => unknown
  | unit => unit
  | bool => bool
  | char => char
  | str => str
  | int k => int k
  | float k => float k
  | tuple elems => tuple (relabelAll elems)
  | ref inner mutable => ref inner.relabel mutable
  | struct d => struct (ρ.node d)
  | enum d => enum (ρ.node d)
  | trait d => trait (ρ.node d)
  | fn params ret => fn (relabelAll params) ret.relabel
  | typeParam d => typeParam (ρ.node d)

@[simp] def relabelAll : List Ty → List Ty
  | [] => []
  | ty :: rest => ty.relabel :: relabelAll rest

end

end

variable {ρ : Relabelling} {t t' : SyntaxTree} {ty : Ty}

theorem relabelAll_eq_map (tys : List Ty) : relabelAll ρ tys = tys.map (relabel ρ) := by
  induction tys with
  | nil => rw [relabelAll, List.map_nil]
  | cons ty rest ih => rw [relabelAll, ih, List.map_cons]

theorem relabel_tuple (elems : List Ty) :
    (tuple elems).relabel ρ = tuple (elems.map (relabel ρ)) := by
  rw [relabel, relabelAll_eq_map]

theorem relabel_fn (params : List Ty) (ret : Ty) :
    (fn params ret).relabel ρ = fn (params.map (relabel ρ)) (ret.relabel ρ) := by
  rw [relabel, relabelAll_eq_map]

theorem relabel_ofElems (elems : List Ty) :
    (ofElems elems).relabel ρ = ofElems (elems.map (relabel ρ)) := by
  cases elems with
  | nil => rw [ofElems, relabel, List.map_nil, ofElems]
  | cons ty rest => exact relabel_tuple (ty :: rest)

theorem relabel_ofNumeric (k : NumericKind) : (ofNumeric k).relabel ρ = ofNumeric k := by
  cases k <;> rw [ofNumeric, relabel]

theorem ret?_relabel (ty : Ty) : (ty.relabel ρ).ret? = ty.ret?.map (relabel ρ) := by
  cases ty <;> simp [relabel, ret?]

theorem relabel_ret (ty : Ty) :
    (ty.ret?.getD unknown).relabel ρ = (ty.relabel ρ).ret?.getD unknown := by
  rw [ret?_relabel]
  cases ty.ret? with
  | none => rw [Option.getD_none, relabel, Option.map_none, Option.getD_none]
  | some ret => rfl

theorem isUnit_relabel (ty : Ty) : (ty.relabel ρ).isUnit = ty.isUnit := by
  cases ty <;> simp [relabel, isUnit]

/-- The declarations in a well-formed type are nodes, so no other numbers matter. -/
theorem Formed.relabel_onNodes (h : ty.Formed t) : ty.relabel (t.onNodes ρ) = ty.relabel ρ := by
  induction h with
  | unknown | unit | bool | char | str | int _ | float _ => simp only [relabel]
  | tuple _ _ ih => rw [relabel_tuple, relabel_tuple, List.map_congr_left ih]
  | ref _ _ ih => rw [relabel, relabel, ih]
  | struct hk | enum hk | trait hk | typeParam hk =>
    rw [relabel, relabel, SyntaxTree.onNodes_node (SyntaxTree.lt_of_kind? hk)]
  | fn _ _ ihs ih => rw [relabel_fn, relabel_fn, List.map_congr_left ihs, ih]

end Ty

namespace SyntaxTree.Mirrors

variable {ρ : Relabelling} {t t' : SyntaxTree}

theorem declText (h : Mirrors ρ t t') (id : NodeId) :
    t'.declText (ρ.node id) = t.declText id := by
  rw [SyntaxTree.declText, SyntaxTree.name?, h.kind?, SyntaxTree.declText, SyntaxTree.name?]
  cases hk : t.kind? id with
  | none => rfl
  | some k =>
    rw [Option.map_some, Option.bind_some, NodeKind.name?_relabel, Option.bind_some]
    cases hn : k.name? with
    | none => rfl
    | some n => exact h.text ⟨id, k, hk, NodeKind.mem_names_of_name? hn⟩

mutual

theorem typeText (h : Mirrors ρ t t') : ∀ ty : Ty, (ty.relabel ρ).text t' = ty.text t
  | .unknown | .unit | .bool | .char | .str | .int _ | .float _ => by
    simp only [Ty.relabel, Ty.text]
  | .tuple elems => by rw [Ty.relabel, Ty.text, h.typeTexts elems, Ty.text]
  | .ref inner _ => by rw [Ty.relabel, Ty.text, h.typeText inner, Ty.text]
  | .struct d | .enum d | .trait d | .typeParam d => by rw [Ty.relabel, Ty.text, h.declText, Ty.text]
  | .fn params ret => by
    rw [Ty.relabel, Ty.text, h.typeTexts params, h.typeText ret, Ty.isUnit_relabel, Ty.text]

theorem typeTexts (h : Mirrors ρ t t') :
    ∀ tys : List Ty, Ty.texts t' (Ty.relabelAll ρ tys) = Ty.texts t tys
  | [] => by simp only [Ty.relabelAll, Ty.texts]
  | ty :: rest => by rw [Ty.relabelAll, Ty.texts, h.typeText ty, h.typeTexts rest, Ty.texts]

end

end SyntaxTree.Mirrors

namespace Place

def relabel (ρ : Relabelling) (s : Place) : Place := ⟨s.ty.relabel ρ, s.mode⟩

variable {ρ : Relabelling}

theorem lookThrough_relabel (ty : Ty) (mode : Option Bool) :
    lookThrough (ty.relabel ρ) mode = (lookThrough ty mode).relabel ρ := by
  induction ty, mode using lookThrough.induct with
  | case1 mode inner mutable ih => rw [Ty.relabel, lookThrough, ih, lookThrough]
  | case2 ty mode hne =>
    cases ty with
    | ref inner mutable => exact absurd rfl (hne inner mutable)
    | _ => simp only [Ty.relabel, lookThrough, relabel]

theorem opened_relabel (s : Place) : (s.relabel ρ).opened = s.opened.relabel ρ :=
  lookThrough_relabel s.ty s.mode

theorem referred?_relabel (s : Place) : (s.relabel ρ).referred? = s.referred?.map (relabel ρ) := by
  obtain ⟨ty, mode⟩ := s
  cases ty <;> simp [relabel, Ty.relabel, referred?]

theorem bound_relabel (s : Place) (byRef mutable : Bool) :
    (s.relabel ρ).bound byRef mutable = (s.bound byRef mutable).relabel ρ := by
  obtain ⟨ty, mode⟩ := s
  cases byRef <;> cases mode <;> simp [relabel, bound, Ty.relabel]

end Place

end TypeDerivation
