import TypeDerivation.Proofs.Derivation.Outcome
import TypeDerivation.Proofs.Derivation.Outermost

/-!
A pattern read from the top down against a type, until a binding is reached. The types of fields
are what the replies say.
-/

namespace TypeDerivation

/-- Which of the references around a type are mutable, from the outside in. -/
def Ty.layers : Ty → List Bool
  | ref inner mutable => mutable :: inner.layers
  | _ => []

namespace NodeKind

def isFieldNamed (n : Name) : NodeKind → Bool
  | decl (.field m _) => m = n
  | _ => false

def writtenType? : NodeKind → Option NodeId
  | decl (.field _ ty) => ty
  | decl (.tupleField ty) => some ty
  | _ => none

end NodeKind

/-- What a pattern is matched against. -/
structure View where
  ty : Ty
  /-- Which of the references looked through since the last reference pattern are mutable. -/
  seen : List Bool

namespace View

/-- None behind no reference, else whether all of them are mutable. -/
def refMode (seen : List Bool) : Option Bool := if seen = [] then none else some (seen.all id)

def opened (v : View) : View := ⟨v.ty.referent, v.seen ++ v.ty.layers⟩

def bound (v : View) : (byRef mutable : Bool) → Ty
  | true, mutable => .ref v.ty mutable
  | false, _ => (refMode v.seen).elim v.ty (.ref v.ty)

end View

namespace Context

open TypeDerivation.Derivation

section

variable (c : Context) (reply : Replies)

/-- The pattern names the struct of the type, or a variant in the body of its enum; these are the
fields. -/
inductive Names (pat : NodeId) : Ty → List NodeId → Prop where
  | struct {decl : NodeId} {name : Name} {generics fields : List NodeId} :
    c.declOf? pat = some decl → c.tree.kind? decl = some (.item (.struct name generics fields)) →
    Names pat (.struct decl) fields
  | variant {decl body enum : NodeId} {name : Name} {fields : List NodeId} :
    c.declOf? pat = some decl → c.tree.kind? decl = some (.decl (.variant name fields)) →
    c.tree.holds NodeKind.isEnumBody body = true → decl ∈ c.tree.children body →
    c.tree.holds NodeKind.isEnum enum = true → body ∈ c.tree.children enum →
    Names pat (.enum enum) fields

/-- The type that is written for a field. -/
def Declares (field : NodeId) (ty : Ty) : Prop :=
  ∃ kind written, c.tree.kind? field = some kind ∧ kind.writtenType? = some written ∧
    reply (.typeExpr written) = .ok ty

/-- Which of the fields of a struct or variant a part of a pattern is for: the first of its name, or
the one in its place. -/
inductive StandsFor (pat child : NodeId) (fields : List NodeId) (field : NodeId) : Prop where
  | named {path : SymbolPath} {entries : List FieldPat} {name : Name} :
    c.tree.kind? pat = some (.pat (.struct path entries)) → ⟨name, child⟩ ∈ entries →
    fields.find? (c.tree.holds (·.isFieldNamed name)) = some field →
    StandsFor pat child fields field
  | positional {path : SymbolPath} {elems : List NodeId} {i : Nat} :
    c.tree.kind? pat = some (.pat (.tupleStruct path elems)) → elems[i]? = some child →
    fields[i]? = some field → StandsFor pat child fields field

/-- From a pattern to a pattern directly below it. -/
inductive Enters : NodeId → View → NodeId → View → Prop where
  | sub {pat child : NodeId} {v : View} {name : Name} {byRef mutable : Bool} :
    c.tree.kind? pat = some (.pat (.binding name byRef mutable (some child))) →
    Enters pat v child v
  | ref {pat child : NodeId} {inner : Ty} {seen : List Bool} {mutable m : Bool} :
    c.tree.kind? pat = some (.pat (.ref child mutable)) →
    Enters pat ⟨.ref inner m, seen⟩ child ⟨inner, []⟩
  | tuple {pat child : NodeId} {v : View} {elems : List NodeId} {tys : List Ty} {i : Nat} {ty : Ty} :
    c.tree.kind? pat = some (.pat (.tuple elems)) → v.opened.ty = .tuple tys →
    tys.length = elems.length → elems[i]? = some child → tys[i]? = some ty →
    Enters pat v child { v.opened with ty := ty }
  | field {pat child : NodeId} {v : View} {fields : List NodeId} {field : NodeId} {ty : Ty} :
    c.Names pat v.opened.ty fields → c.StandsFor pat child fields field →
    c.Declares reply field ty → Enters pat v child { v.opened with ty := ty }

/-- From the pattern `top`, which has the type `start`, down to a node. -/
inductive Reaches (top : NodeId) (start : Ty) : NodeId → View → Prop where
  | top : Reaches top start top ⟨start, []⟩
  | step {pat child : NodeId} {v v' : View} :
    Reaches top start pat v → c.Enters reply pat v child v' → Reaches top start child v'

/-- The type that a binding has if the pattern `top`, which is around it or the binding itself, has
the type `start`. -/
inductive Reads (top : NodeId) (start : Ty) (id : NodeId) : Ty → Prop where
  | bound {v : View} {name : Name} {byRef mutable : Bool} {sub : Option NodeId} :
    c.Reaches reply top start id v →
    c.tree.kind? id = some (.pat (.binding name byRef mutable sub)) →
    Reads top start id (v.bound byRef mutable)
  | unmatched : (∀ v, ¬c.Reaches reply top start id v) → Reads top start id .unknown

/-- The type that a binding below the pattern `top` has by what the replies say. -/
inductive Gives (id top : NodeId) : Ty → Prop where
  | bound {o : Origin} {start : Ty} {v : View} {name : Name} {byRef mutable : Bool}
      {sub : Option NodeId} :
    c.tree.Contributes top o → o.type.outcome reply = .ok start → c.Reaches reply top start id v →
    c.tree.kind? id = some (.pat (.binding name byRef mutable sub)) →
    Gives id top (v.bound byRef mutable)
  | unmatched {o : Origin} {start : Ty} :
    c.tree.Contributes top o → o.type.outcome reply = .ok start →
    (∀ v, ¬c.Reaches reply top start id v) → Gives id top .unknown
  | unowned : (∀ o, ¬c.tree.Contributes top o) → Gives id top .unknown

end

variable {c : Context} {reply : Replies} {pat child top id : NodeId} {v : View} {ty : Ty}
  {fields : List NodeId}

theorem Names.lt (ht : c.tree.Ordered) (h : c.Names pat ty fields) :
    ∀ x ∈ fields, x.index < c.tree.size := by
  intro x hx
  cases h with
  | struct _ hk => exact ht.child_lt_size hk (List.mem_append_right _ hx)
  | variant _ hk => exact ht.child_lt_size hk hx

theorem Enters.inside {v' : View} (h : c.Enters reply pat v child v') : c.tree.Inside child pat := by
  have hinside {p : Pat} (hk : c.tree.kind? pat = some (.pat p)) (hc : child ∈ p.children) :
      c.tree.Inside child pat :=
    ⟨SyntaxTree.holds_iff.mpr ⟨_, hk, rfl⟩, SyntaxTree.mem_children_iff_kind?.mpr ⟨_, hk, hc⟩⟩
  cases h with
  | sub hk | ref hk => exact hinside hk (by simp [Pat.children])
  | tuple hk _ _ hi => exact hinside hk (List.mem_of_getElem? hi)
  | field _ hstands =>
    cases hstands with
    | named hk hmem => exact hinside hk (List.mem_map.mpr ⟨_, hmem, rfl⟩)
    | positional hk hi => exact hinside hk (List.mem_of_getElem? hi)

theorem Reaches.eq_start (htop : ∀ pat, ¬c.tree.Inside top pat) {start : Ty}
    (h : c.Reaches reply top start top v) : v = ⟨start, []⟩ := by
  cases h with
  | top => rfl
  | step _ henters => exact absurd henters.inside (htop _)

theorem gives_iff_reads (ha : c.tree.Agreeing) {o : Origin} {start : Ty}
    (ho : c.tree.Contributes top o) (hstart : o.type.outcome reply = .ok start) :
    c.Gives reply id top ty ↔ c.Reads reply top start id ty := by
  constructor
  · intro h
    cases h with
    | bound ho' hstart' hv hk =>
      cases ho.unique ha ho'
      cases hstart.symm.trans hstart'
      exact .bound hv hk
    | unmatched ho' hstart' hnone =>
      cases ho.unique ha ho'
      cases hstart.symm.trans hstart'
      exact .unmatched hnone
    | unowned hnone => exact absurd ho (hnone o)
  · intro h
    cases h with
    | bound hv hk => exact .bound ho hstart hv hk
    | unmatched hnone => exact .unmatched ho hstart hnone

theorem gives_iff_of_unowned (hnone : ∀ o, ¬c.tree.Contributes top o) :
    c.Gives reply id top ty ↔ ty = .unknown := by
  constructor
  · intro h
    cases h with
    | bound ho => exact absurd ho (hnone _)
    | unmatched => rfl
    | unowned => rfl
  · rintro rfl
    exact .unowned hnone

end Context

end TypeDerivation
