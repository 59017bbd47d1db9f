import TypeDerivation.Derivation.Rule
import TypeDerivation.Proofs.Derivation.Outcome
import TypeDerivation.Proofs.Resolution
import TypeDerivation.Proofs.Ty.Formed

/-!
What each rule asks for. A request about a declaration may lead to any other; all other requests
lead down the tree, from expressions to type expressions, until they reach a declaration.
-/

namespace TypeDerivation

namespace Request

def node : Request → NodeId
  | expr id | entity id | item id | typeExpr id => id

/-- The node is in the tree, and it is an item where one is asked for. -/
def Proper (t : SyntaxTree) : Request → Prop
  | expr id | entity id | typeExpr id => id.index < t.size
  | item id => ∃ i, t.kind? id = some (.item i)

def decl? : Request → Option NodeId
  | entity id | item id => some id
  | expr _ | typeExpr _ => none

/-- How many requests about a tree of `n` nodes are open at most until one about a declaration. -/
def height (n : Nat) : Request → Nat
  | entity _ | item _ => 1
  | typeExpr id => 2 + id.index
  | expr id => 2 + n + id.index

/-- `r.Follows t r'`: work on `r` may ask for `r'`. -/
def Follows (t : SyntaxTree) (r r' : Request) : Prop :=
  r'.Proper t ∧ (r.decl? = none → r'.height t.size < r.height t.size)

/-- A request about something other than an expression. -/
def Shallow (t : SyntaxTree) (r : Request) : Prop := r.Proper t ∧ r.height t.size < 2 + t.size

variable {t : SyntaxTree} {r : Request} {id : NodeId}

theorem Proper.lt (h : r.Proper t) : ∀ d ∈ r.decl?, d.index < t.size := by
  intro d hd
  cases r with
  | expr _ | typeExpr _ => cases hd
  | entity id =>
    cases hd
    exact h
  | item id =>
    cases hd
    obtain ⟨i, hi⟩ := h
    exact SyntaxTree.lt_of_kind? hi

theorem Proper.height_le (h : r.Proper t) : r.height t.size ≤ 2 * t.size + 1 := by
  cases r with
  | entity id =>
    simp only [height]
    omega
  | item id =>
    simp only [height]
    omega
  | expr id | typeExpr id =>
    have hlt : id.index < t.size := h
    simp only [height]
    omega

theorem one_le_height (n : Nat) (r : Request) : 1 ≤ r.height n := by
  cases r <;> simp only [height] <;> omega

theorem shallow_typeExpr (h : id.index < t.size) : (typeExpr id).Shallow t :=
  ⟨h, by simp only [height]; omega⟩

theorem shallow_entity (h : id.index < t.size) : (entity id).Shallow t :=
  ⟨h, by simp only [height]; omega⟩

theorem shallow_item {i : Item} (h : t.kind? id = some (.item i)) : (item id).Shallow t :=
  ⟨⟨i, h⟩, by simp only [height]; omega⟩

theorem follows_of_decl? (hr : r.decl? ≠ none) {r' : Request} (h : r'.Proper t) : r.Follows t r' :=
  ⟨h, fun hn => absurd hn hr⟩

theorem follows_expr_of_shallow (h : r.Shallow t) : (expr id).Follows t r := by
  refine ⟨h.1, fun _ => ?_⟩
  have := h.2
  simp only [height] at *
  omega

theorem follows_expr {child : NodeId} (h : child.index < id.index) (hs : id.index < t.size) :
    (expr id).Follows t (expr child) :=
  ⟨Nat.lt_trans h hs, fun _ => by simp only [height]; omega⟩

theorem follows_typeExpr {child : NodeId} (h : child.index < id.index) (hs : id.index < t.size) :
    (typeExpr id).Follows t (typeExpr child) :=
  ⟨Nat.lt_trans h hs, fun _ => by simp only [height]; omega⟩

theorem typeExpr_follows_entity {decl : NodeId} (h : decl.index < t.size) :
    (typeExpr id).Follows t (entity decl) :=
  ⟨h, fun _ => by simp only [height]; omega⟩

end Request

def Shape.parts : Shape → List NodeId
  | .tuple elems => elems
  | .ref inner _ => [inner]
  | .unknown | .unit | .primitive _ | .path _ => []

namespace Context

open TypeDerivation.Derivation Request

variable {c : Context} {id : NodeId} {P : Request → Prop}

theorem meets_kind {W : Ty → Prop} (h : id.index < c.tree.size) :
    (c.kind id).Meets P W fun k => c.tree.kind? id = some k := by
  obtain ⟨k, hk⟩ := SyntaxTree.kind?_of_lt h
  rw [kind_eq_done hk]
  exact .done hk

theorem itemType_eq_stop {k : NodeKind} (hk : c.tree.kind? id = some k) (hi : k.isItem = false) :
    c.itemType id = .stop (.notAnItem id k.category) := by
  rw [itemType, kind_eq_done hk]
  change (if k.isItem = true then _ else _) = _
  rw [hi]
  rfl

theorem meets_itemType {W : Ty → Prop} {i : Item} (hi : c.tree.kind? id = some (.item i))
    (hP : P (.item id)) : (c.itemType id).Meets P W W := by
  rw [itemType, kind_eq_done hi]
  exact .request hP

theorem meets_variantType (hP : ∀ r, r.Shallow c.tree → P r) (variant : NodeId) :
    (c.variantType variant).Meets P (Ty.Formed c.tree) (Ty.Formed c.tree) := by
  rw [variantType]
  split
  · rename_i decl hd
    obtain ⟨k, hk, he⟩ := SyntaxTree.holds_iff.mp (SyntaxTree.holds_isEnum_of_variantEnum? hd)
    cases k with
    | item i => exact meets_itemType hk (hP _ (shallow_item hk))
    | _ => cases he
  · exact .done .unknown

theorem meets_denotedOr {absent : Ty} {o : Option NodeId} (ha : absent.Formed c.tree)
    (ho : ∀ id ∈ o, P (.typeExpr id)) :
    (denotedOr absent o).Meets P (Ty.Formed c.tree) (Ty.Formed c.tree) := by
  cases o with
  | none => exact .done ha
  | some id => exact .request (ho id rfl)

end Context

namespace SyntaxTree

variable {t : SyntaxTree} {id target : NodeId}

theorem Ordered.lt_of_implTarget? (ht : t.Ordered) (h : t.implTarget? id = some target) :
    target.index < t.size := by
  obtain ⟨owner, -, h⟩ := Option.bind_eq_some_iff.mp h
  split at h
  · rename_i hk
    refine ht.child_lt_size hk ?_
    simp [NodeKind.children, Item.children, h]
  · cases h

end SyntaxTree

namespace Context

open TypeDerivation.Derivation Request

variable {c : Context} {id : NodeId} {P : Request → Prop} (ht : c.tree.Ordered)
  (hP : ∀ r, r.Shallow c.tree → P r)
include ht hP

theorem meets_receiverType (hid : id.index < c.tree.size) :
    (c.receiverType id).Meets P (Ty.Formed c.tree) (Ty.Formed c.tree) := by
  rw [receiverType]
  apply (meets_kind hid).bind
  intro k hk
  split
  · refine (meets_denotedOr .unknown ?_).bind fun ty hty => .done ?_
    · intro target htarget
      exact hP _ (shallow_typeExpr (ht.lt_of_implTarget? htarget))
    · split
      · exact .ref _ hty
      · exact hty
  · exact .done .unknown

theorem meets_paramType (hid : id.index < c.tree.size) :
    (c.paramType id).Meets P (Ty.Formed c.tree) (Ty.Formed c.tree) := by
  rw [paramType]
  apply (meets_kind hid).bind
  intro k hk
  split
  · refine meets_denotedOr .unknown fun ty hty => hP _ (shallow_typeExpr ?_)
    refine ht.child_lt_size hk ?_
    simp only [NodeKind.children, Decl.children, List.mem_append, Option.mem_toList]
    exact .inr hty
  · exact .done .unknown

theorem meets_signatureType {sig : Signature} (hs : ∀ x ∈ sig.children, x.index < c.tree.size) :
    (c.signatureType sig).Meets P (Ty.Formed c.tree) (Ty.Formed c.tree) := by
  rw [signatureType]
  refine (Meets.forEach fun x hx => meets_receiverType ht hP (hs x ?_)).bind fun rs hrs => ?_
  · simp only [Signature.children, List.mem_append]
    exact .inl (.inl (.inl (.inr hx)))
  · refine (Meets.forEach fun x hx => meets_paramType ht hP (hs x ?_)).bind fun ps hps => ?_
    · simp only [Signature.children, List.mem_append]
      exact .inl (.inl (.inr hx))
    · refine (meets_denotedOr .unit fun x hx => hP _ (shallow_typeExpr (hs x ?_))).bind
        fun ret hret => .done (.fn ?_ hret)
      · simp only [Signature.children, List.mem_append, Option.mem_toList]
        exact .inl (.inr hx)
      · intro ty hty
        rcases List.mem_append.mp hty with hty | hty
        · exact hrs.2 ty hty
        · exact hps.2 ty hty

theorem meets_fnType (hid : id.index < c.tree.size) :
    (c.fnType id).Meets P (Ty.Formed c.tree) (Ty.Formed c.tree) := by
  rw [fnType]
  apply (meets_kind hid).bind
  intro k hk
  split
  · rename_i sig hs
    exact meets_signatureType ht hP fun x hx =>
      ht.child_lt_size hk (SyntaxTree.mem_children_of_signature? hs hx)
  · exact .done .unknown

end Context

end TypeDerivation
