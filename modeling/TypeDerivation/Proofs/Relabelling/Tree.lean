import Mathlib.Data.Fin.Embedding
import Mathlib.Data.Set.Function
import TypeDerivation.Derivation.Binding
import TypeDerivation.Derivation.Callable
import TypeDerivation.Proofs.Relabelling.Syntax
import TypeDerivation.Proofs.Tree.Kinship
import TypeDerivation.Proofs.Tree.Names

/-!
Two trees with the same nodes under other numbers. Whatever is found on the way up from a node is
found on the way up from the node with its number in the other tree.
-/

namespace TypeDerivation

def Origin.relabel (ρ : Relabelling) : Origin → Origin
  | typeExpr node => typeExpr (ρ.node node)
  | expr node => expr (ρ.node node)
  | unstated => unstated

namespace SyntaxTree

def Mentions (t : SyntaxTree) (n : Name) : Prop := ∃ id k, t.kind? id = some k ∧ n ∈ k.names

/-- The map takes the nodes of one tree to those of another one, each to a node that is the same but
for the numbers of its children and the names of its texts. -/
structure Carries (ρ : Relabelling) (t t' : SyntaxTree) : Prop where
  bijOn : Set.BijOn ρ.node {id | id.index < t.size} {id | id.index < t'.size}
  kind? : ∀ {id : NodeId} {k : NodeKind}, t.kind? id = some k →
    t'.kind? (ρ.node id) = some (k.relabel ρ)
  interned : ∀ {n : Name}, t.Mentions n → n.raw < t.names.size
  text : ∀ {n : Name}, t.Mentions n → t'.text (ρ.name n) = t.text n

/-- As `Carries`, of a map of all numbers, also of those that stand for no node. -/
structure Mirrors (ρ : Relabelling) (t t' : SyntaxTree) : Prop where
  injective : Function.Injective ρ.node
  size : t'.size = t.size
  kind? : ∀ id, t'.kind? (ρ.node id) = (t.kind? id).map (NodeKind.relabel ρ)
  parent? : ∀ id, t'.parent? (ρ.node id) = (t.parent? id).map ρ.node
  name_inj : ∀ {m n : Name}, t.Mentions m → t.Mentions n → ρ.name m = ρ.name n → m = n
  text : ∀ {n : Name}, t.Mentions n → t'.text (ρ.name n) = t.text n

/-- The map of the nodes, with all other numbers left as they are. -/
def onNodes (t : SyntaxTree) (ρ : Relabelling) : Relabelling :=
  ⟨fun id => if id.index < t.size then ρ.node id else id, ρ.name⟩

variable {ρ : Relabelling} {t t' : SyntaxTree} {id : NodeId} {p : NodeKind → Bool}

theorem onNodes_node (h : id.index < t.size) : (t.onNodes ρ).node id = ρ.node id := if_pos h

theorem Ordered.relabel_onNodes (ht : t.Ordered) {k : NodeKind} (hk : t.kind? id = some k) :
    k.relabel (t.onNodes ρ) = k.relabel ρ :=
  NodeKind.relabel_congr fun _ hx => onNodes_node (Nat.lt_trans (ht.child_lt hk hx) (lt_of_kind? hk))

namespace Carries

variable (h : Carries ρ t t')
include h

theorem size_eq : t'.size = t.size := by
  have hids (n : Nat) : {id : NodeId | id.index < n} ≃ Fin n :=
    ⟨fun id => ⟨id.1.index, id.2⟩, fun i => ⟨⟨i.1⟩, i.2⟩, fun _ => rfl, fun _ => rfl⟩
  exact (Fin.equiv_iff_eq.mp ⟨(hids _).symm.trans ((h.bijOn.equiv _).trans (hids _))⟩).symm

theorem lt_node (hid : id.index < t.size) : (ρ.node id).index < t.size := by
  have hlt : (ρ.node id).index < t'.size := h.bijOn.mapsTo hid
  rwa [h.size_eq] at hlt

theorem onNodes_injective : Function.Injective (t.onNodes ρ).node := by
  intro a b hab
  simp only [onNodes] at hab
  split at hab
  · rename_i ha
    split at hab
    · rename_i hb
      exact h.bijOn.injOn ha hb hab
    · rename_i hb
      exact absurd (hab ▸ h.lt_node ha) hb
  · rename_i ha
    split at hab
    · rename_i hb
      exact absurd (hab.symm ▸ h.lt_node hb) ha
    · exact hab

theorem kind?_onNodes (ht : t.Ordered) (id : NodeId) :
    t'.kind? ((t.onNodes ρ).node id) = (t.kind? id).map (NodeKind.relabel (t.onNodes ρ)) := by
  by_cases hid : id.index < t.size
  · obtain ⟨k, hk⟩ := kind?_of_lt hid
    rw [onNodes_node hid, h.kind? hk, hk, Option.map_some, ht.relabel_onNodes hk]
  · have hnone (t : SyntaxTree) (hle : t.size ≤ id.index) : t.kind? id = none := by
      rw [SyntaxTree.kind?, get?_eq_none_iff.mpr hle]
      rfl
    have hle := Nat.le_of_not_lt hid
    have hle' : t'.size ≤ id.index := by
      rw [h.size_eq]
      exact hle
    have hnode : (t.onNodes ρ).node id = id := if_neg hid
    rw [hnode, hnone t hle, hnone t' hle']
    rfl

theorem children_onNodes (ht : t.Ordered) (id : NodeId) :
    t'.children ((t.onNodes ρ).node id) = (t.children id).map (t.onNodes ρ).node := by
  rw [children, h.kind?_onNodes ht, children]
  cases t.kind? id with
  | none => rfl
  | some k => exact k.children_relabel

theorem parent?_onNodes (ht : t.Built) (ht' : t'.Built) (id : NodeId) :
    t'.parent? ((t.onNodes ρ).node id) = (t.parent? id).map (t.onNodes ρ).node := by
  cases hp : t.parent? id with
  | some p =>
    apply ht'.agreeing.mem_children_iff.mp
    rw [h.children_onNodes ht.ordered]
    exact List.mem_map_of_mem (ht.agreeing.mem_children_iff.mpr hp)
  | none =>
    rw [Option.map_none, Option.eq_none_iff_forall_ne_some]
    intro q hq
    -- a parent in the other tree comes from a node of this one, which would then be the parent
    obtain ⟨p, hlt, rfl⟩ := h.bijOn.surjOn (ht'.ordered.parent_lt hq)
    rw [← onNodes_node hlt] at hq
    have hmem := ht'.agreeing.mem_children_iff.mpr hq
    rw [h.children_onNodes ht.ordered] at hmem
    obtain ⟨x, hx, hxid⟩ := List.mem_map.mp hmem
    rw [h.onNodes_injective hxid] at hx
    rw [ht.agreeing.mem_children_iff.mp hx] at hp
    cases hp

theorem mirrors (ht : t.Built) (ht' : t'.Built) : Mirrors (t.onNodes ρ) t t' where
  injective := h.onNodes_injective
  size := h.size_eq
  kind? := h.kind?_onNodes ht.ordered
  parent? := h.parent?_onNodes ht ht'
  name_inj {m n} hm hn he := by
    apply ht.sound.text_inj (h.interned hm) (h.interned hn)
    have hm' : t'.text (ρ.name m) = t.text m := h.text hm
    have hn' : t'.text (ρ.name n) = t.text n := h.text hn
    exact hm'.symm.trans ((congrArg t'.text he).trans hn')
  text := h.text

end Carries

namespace Mirrors

variable (h : Mirrors ρ t t')
include h

theorem holds (hp : ∀ k, p (k.relabel ρ) = p k) (id : NodeId) :
    t'.holds p (ρ.node id) = t.holds p id := by
  rw [SyntaxTree.holds, h.kind?, Option.any_map, SyntaxTree.holds]
  congr 1
  funext k
  exact hp k

theorem climb (fuel : Nat) (id : NodeId) :
    t'.climb fuel (ρ.node id) = (t.climb fuel id).map ρ.node := by
  induction fuel generalizing id with
  | zero => rfl
  | succ fuel ih =>
    rw [SyntaxTree.climb, SyntaxTree.climb, h.parent?]
    cases t.parent? id with
    | none => rfl
    | some above => simp [ih]

theorem ancestors (id : NodeId) : t'.ancestors (ρ.node id) = (t.ancestors id).map ρ.node := by
  rw [SyntaxTree.ancestors, h.size, h.climb, SyntaxTree.ancestors]

theorem holds_comp (hp : ∀ k, p (k.relabel ρ) = p k) : t'.holds p ∘ ρ.node = t.holds p := by
  funext id
  exact h.holds hp id

theorem enclosing? (hp : ∀ k, p (k.relabel ρ) = p k) (id : NodeId) :
    t'.enclosing? p (ρ.node id) = (t.enclosing? p id).map ρ.node := by
  rw [SyntaxTree.enclosing?, h.ancestors, List.find?_map, h.holds_comp hp, SyntaxTree.enclosing?]

theorem patsAbove (id : NodeId) : t'.patsAbove (ρ.node id) = (t.patsAbove id).map ρ.node := by
  rw [SyntaxTree.patsAbove, h.ancestors, List.takeWhile_map, h.holds_comp NodeKind.isPat_relabel,
    SyntaxTree.patsAbove]

theorem topPat (id : NodeId) : t'.topPat (ρ.node id) = ρ.node (t.topPat id) := by
  rw [SyntaxTree.topPat, h.patsAbove, List.getLast?_map, Option.getD_map, SyntaxTree.topPat]

theorem filter_holds (hp : ∀ k, p (k.relabel ρ) = p k) (o : Option NodeId) :
    (o.map ρ.node).filter (t'.holds p) = (o.filter (t.holds p)).map ρ.node := by
  cases o with
  | none => rfl
  | some id =>
    rw [Option.map_some, Option.filter_some, Option.filter_some, h.holds hp]
    split <;> rfl

theorem variantEnum? (id : NodeId) :
    t'.variantEnum? (ρ.node id) = (t.variantEnum? id).map ρ.node := by
  rw [SyntaxTree.variantEnum?, h.parent?, h.filter_holds NodeKind.isEnumBody_relabel,
    SyntaxTree.variantEnum?]
  cases (t.parent? id).filter (t.holds NodeKind.isEnumBody) with
  | none => rfl
  | some body =>
    simp only [Option.map_some, Option.bind_eq_bind, Option.bind_some]
    rw [h.parent?, h.filter_holds NodeKind.isEnum_relabel]

theorem scrutinee? (id : NodeId) : t'.scrutinee? (ρ.node id) = (t.scrutinee? id).map ρ.node := by
  rw [SyntaxTree.scrutinee?, h.kind?, SyntaxTree.scrutinee?]
  cases t.kind? id with
  | none => rfl
  | some k =>
    cases k with
    | expr e => cases e <;> rfl
    | _ => rfl

theorem implTarget? (id : NodeId) : t'.implTarget? (ρ.node id) = (t.implTarget? id).map ρ.node := by
  rw [SyntaxTree.implTarget?, h.enclosing? NodeKind.isImpl_relabel, SyntaxTree.implTarget?]
  cases t.enclosing? NodeKind.isImpl id with
  | none => rfl
  | some owner =>
    simp only [Option.map_some, Option.bind_eq_bind, Option.bind_some]
    rw [h.kind?]
    cases t.kind? owner with
    | none => rfl
    | some k =>
      cases k with
      | item i => cases i <;> rfl
      | _ => rfl

theorem receiverAt? (id : NodeId) : t'.receiverAt? (ρ.node id) = (t.receiverAt? id).map ρ.node := by
  rw [SyntaxTree.receiverAt?, h.enclosing? NodeKind.hasSignature_relabel, SyntaxTree.receiverAt?]
  cases t.enclosing? NodeKind.hasSignature id with
  | none => rfl
  | some fn =>
    simp only [Option.map_some, Option.bind_eq_bind, Option.bind_some]
    rw [h.kind?]
    cases t.kind? fn with
    | none => rfl
    | some k =>
      simp only [Option.map_some, Option.bind_some]
      rw [NodeKind.signature?_relabel]
      cases k.signature? <;> rfl

theorem spelledPath? (id : NodeId) :
    t'.spelledPath? (ρ.node id) = (t.spelledPath? id).map (SymbolPath.relabel ρ) := by
  rw [SyntaxTree.spelledPath?, h.kind?, SyntaxTree.spelledPath?]
  cases t.kind? id with
  | none => rfl
  | some k =>
    cases k with
    | expr e => cases e <;> rfl
    | pat p => cases p <;> rfl
    | _ => rfl

theorem map_some_eq_iff {o : Option NodeId} : o.map ρ.node = some (ρ.node id) ↔ o = some id := by
  rw [Option.map_eq_some_iff]
  constructor
  · rintro ⟨x, rfl, hx⟩
    rw [h.injective hx]
  · rintro rfl
    exact ⟨id, rfl, rfl⟩

theorem origin? (top : NodeId) :
    t'.origin? (ρ.node top) = (t.origin? top).map (Origin.relabel ρ) := by
  rw [SyntaxTree.origin?, h.parent?, SyntaxTree.origin?]
  cases t.parent? top with
  | none => rfl
  | some owner =>
    simp only [Option.map_some, Option.bind_eq_bind, Option.bind_some]
    rw [h.kind?]
    cases t.kind? owner with
    | none => rfl
    | some k =>
      simp only [Option.map_some, Option.bind_some]
      have howned {pat : Option NodeId} {o o' : Option Origin} (ho : o' = o.map (Origin.relabel ρ)) :
          (if pat.map ρ.node = some (ρ.node top) then o' else none) =
            (if pat = some top then o else none).map (Origin.relabel ρ) := by
        simp only [h.map_some_eq_iff]
        split
        · exact ho
        · rfl
      cases k with
      | stmt s =>
        cases s with
        | bind pat ty init =>
          apply howned
          cases ty <;> cases init <;> rfl
        | semi _ => rfl
      | decl d =>
        cases d with
        | param pat ty =>
          apply howned
          cases ty <;> rfl
        | _ => rfl
      | scopedLet pat scrutinee =>
        apply howned
        cases scrutinee <;> rfl
      | matchArm pat _ _ =>
        apply howned
        rw [h.parent?]
        cases t.parent? owner with
        | none => rfl
        | some select =>
          simp only [Option.map_some, Option.bind_some]
          rw [h.scrutinee?, Option.map_map, Option.map_map]
          rfl
      | _ => rfl

end Mirrors
end SyntaxTree

end TypeDerivation
