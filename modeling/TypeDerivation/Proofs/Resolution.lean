import TypeDerivation.Proofs.Tree.Growth
import TypeDerivation.Resolution

namespace TypeDerivation

namespace SyntaxTree

variable {t : SyntaxTree} {id above : NodeId} {p : NodeKind → Bool}

theorem holds_iff : t.holds p id = true ↔ ∃ kind, t.kind? id = some kind ∧ p kind = true := by
  rw [holds, Option.any_eq_true]

theorem lt_of_holds (h : t.holds p id = true) : id.index < t.size := by
  obtain ⟨kind, hk, -⟩ := holds_iff.mp h
  exact lt_of_kind? hk

theorem Ordered.lt_of_mem_climb (ht : t.Ordered) (fuel : Nat) (h : above ∈ t.climb fuel id) :
    above.index < t.size := by
  induction fuel generalizing id with
  | zero => simp [climb] at h
  | succ fuel ih =>
    rw [climb] at h
    split at h
    · simp at h
    · rename_i parent hp
      rcases List.mem_cons.mp h with rfl | h
      · exact ht.parent_lt hp
      · exact ih h

theorem Ordered.lt_of_mem_ancestors (ht : t.Ordered) (h : above ∈ t.ancestors id) :
    above.index < t.size := ht.lt_of_mem_climb _ h

theorem holds_of_enclosing? (h : t.enclosing? p id = some above) : t.holds p above = true :=
  List.find?_some h

theorem Ordered.child_lt_size (ht : t.Ordered) {kind : NodeKind} {child : NodeId}
    (hk : t.kind? id = some kind) (hc : child ∈ kind.children) : child.index < t.size :=
  Nat.lt_trans (ht.child_lt hk hc) (lt_of_kind? hk)

theorem mem_children_of_signature? {kind : NodeKind} {sig : Signature} {child : NodeId}
    (hs : kind.signature? = some sig) (hc : child ∈ sig.children) : child ∈ kind.children := by
  unfold NodeKind.signature? at hs
  split at hs
  · cases hs
    exact hc
  · cases hs
    exact hc
  · cases hs

theorem Ordered.lt_of_receiverAt? (ht : t.Ordered) {receiver : NodeId}
    (h : t.receiverAt? id = some receiver) : receiver.index < t.size := by
  obtain ⟨fn, -, h⟩ := Option.bind_eq_some_iff.mp h
  obtain ⟨kind, hk, h⟩ := Option.bind_eq_some_iff.mp h
  obtain ⟨sig, hs, h⟩ := Option.bind_eq_some_iff.mp h
  refine ht.child_lt_size hk (mem_children_of_signature? hs ?_)
  simp [Signature.children, h]

theorem holds_isEnum_of_variantEnum? {decl : NodeId} (h : t.variantEnum? id = some decl) :
    t.holds NodeKind.isEnum decl = true := by
  obtain ⟨body, -, h⟩ := Option.bind_eq_some_iff.mp h
  exact (Option.filter_eq_some_iff.mp h).2

end SyntaxTree

namespace Resolver

structure Within (t : SyntaxTree) (r : Resolver) : Prop where
  reference : ∀ {node decl : NodeId}, r.reference t node = some decl → decl.index < t.size
  path : ∀ {p : SymbolPath} {scope decl : NodeId}, r.path t p scope = some decl →
    decl.index < t.size

theorem within_none (t : SyntaxTree) : Within t none := by
  constructor
  · intro node decl h
    cases h
  · intro p scope decl h
    cases h

/-- Wherever `R` knows a declaration at a node of the tree, `R'` knows the same one. -/
structure Extends (t : SyntaxTree) (R' R : Resolver) : Prop where
  reference : ∀ {node decl : NodeId}, node.index < t.size → R.reference t node = some decl →
    R'.reference t node = some decl
  path : ∀ {p : SymbolPath} {scope decl : NodeId}, scope.index < t.size →
    R.path t p scope = some decl → R'.path t p scope = some decl

theorem extends_refl (t : SyntaxTree) (R : Resolver) : R.Extends t R := ⟨fun _ => id, fun _ => id⟩

theorem extends_none (t : SyntaxTree) (R : Resolver) : R.Extends t none := by
  constructor
  · intro node decl _ h
    cases h
  · intro p scope decl _ h
    cases h

end Resolver

namespace ResolvedNames

/-- Every declaration of the table is a node of the tree. -/
structure Within (t : SyntaxTree) (r : ResolvedNames) : Prop where
  references : ∀ {node : Nat} {decl : NodeId}, r.references[node]? = some decl →
    decl.index < t.size
  paths : ∀ {text : String} {decl : NodeId}, r.paths[text]? = some decl → decl.index < t.size

variable {r : ResolvedNames} {t : SyntaxTree} {p : SymbolPath} {scope decl : NodeId}

theorem within_empty (t : SyntaxTree) : Within t empty := by
  constructor
  · intro node decl h
    simp [empty] at h
  · intro text decl h
    simp [empty] at h

theorem Within.bindReference (h : r.Within t) (node : NodeId) (hd : decl.index < t.size) :
    (r.bindReference node decl).Within t := by
  refine ⟨?_, h.paths⟩
  intro x d hx
  rw [ResolvedNames.bindReference, Std.TreeMap.getElem?_insert] at hx
  split at hx
  · cases hx
    exact hd
  · exact h.references hx

theorem Within.bindPath (h : r.Within t) (text : String) (hd : decl.index < t.size) :
    (r.bindPath text decl).Within t := by
  refine ⟨h.references, ?_⟩
  intro x d hx
  rw [ResolvedNames.bindPath, Std.TreeMap.getElem?_insert] at hx
  split at hx
  · cases hx
    exact hd
  · exact h.paths hx

theorem Within.ordinaryPath? (hr : r.Within t) (ht : t.Ordered)
    (h : r.ordinaryPath? t p scope = some decl) : decl.index < t.size := by
  rw [ResolvedNames.ordinaryPath?] at h
  split at h
  · exact ht.lt_of_receiverAt? h
  · exact hr.paths h

theorem Within.selfType? (hr : r.Within t) (ht : t.Ordered)
    (h : r.selfType? t scope = some decl) : decl.index < t.size := by
  obtain ⟨owner, ho, h⟩ := Option.bind_eq_some_iff.mp h
  split at h
  · cases h
    exact SyntaxTree.lt_of_holds (SyntaxTree.holds_of_enclosing? ho)
  · split at h
    · split at h
      · cases h
      · exact hr.ordinaryPath? ht h
    · cases h
  · cases h

theorem Within.path? (hr : r.Within t) (ht : t.Ordered) (h : r.path? t p scope = some decl) :
    decl.index < t.size := by
  rw [ResolvedNames.path?] at h
  split at h
  · exact hr.selfType? ht h
  · exact hr.ordinaryPath? ht h

theorem Within.resolver (hr : r.Within t) (ht : t.Ordered) : r.resolver.Within t := by
  refine ⟨?_, hr.path? ht⟩
  intro node decl h
  change r.reference? t node = some decl at h
  rw [reference?] at h
  split at h
  · rename_i d hd
    cases h
    exact hr.references hd
  · obtain ⟨p, -, h⟩ := Option.bind_eq_some_iff.mp h
    exact hr.path? ht h

section

variable {r' : ResolvedNames} (hpaths : ∀ {text : String} {decl : NodeId},
  r.paths[text]? = some decl → r'.paths[text]? = some decl)
include hpaths

theorem ordinaryPath?_mono (h : r.ordinaryPath? t p scope = some decl) :
    r'.ordinaryPath? t p scope = some decl := by
  rw [ResolvedNames.ordinaryPath?] at h ⊢
  split at h
  · rename_i hp
    rw [if_pos hp]
    exact h
  · rename_i hp
    rw [if_neg hp]
    exact hpaths h

theorem path?_mono (h : r.path? t p scope = some decl) : r'.path? t p scope = some decl := by
  rw [ResolvedNames.path?] at h ⊢
  split at h
  · rename_i hp
    rw [if_pos hp]
    obtain ⟨owner, ho, h⟩ := Option.bind_eq_some_iff.mp h
    refine Option.bind_eq_some_iff.mpr ⟨owner, ho, ?_⟩
    split at h
    · exact h
    · split at h
      · split at h
        · cases h
        · rename_i hs
          rw [if_neg hs]
          exact ordinaryPath?_mono hpaths h
      · cases h
    · cases h
  · rename_i hp
    rw [if_neg hp]
    exact ordinaryPath?_mono hpaths h

end

theorem reference?_mono {r' : ResolvedNames} {node : NodeId}
    (hrefs : r'.references[node.index]? = r.references[node.index]?)
    (hpath : ∀ {p : SymbolPath} {decl : NodeId}, r.path? t p node = some decl →
      r'.path? t p node = some decl)
    (h : r.reference? t node = some decl) : r'.reference? t node = some decl := by
  rw [reference?] at h ⊢
  rw [hrefs]
  split at h
  · exact h
  · obtain ⟨p, hp, h⟩ := Option.bind_eq_some_iff.mp h
    exact Option.bind_eq_some_iff.mpr ⟨p, hp, hpath h⟩

theorem extends_bindPath {text : String} (hnew : r.paths[text]? = none) (t : SyntaxTree)
    (decl : NodeId) : (r.bindPath text decl).resolver.Extends t r.resolver := by
  have hpaths {x : String} {d : NodeId} (h : r.paths[x]? = some d) :
      (r.bindPath text decl).paths[x]? = some d := by
    rw [ResolvedNames.bindPath, Std.TreeMap.getElem?_insert]
    split
    · rename_i hx
      rw [← Std.LawfulEqCmp.eq_of_compare hx, hnew] at h
      cases h
    · exact h
  exact ⟨fun _ => reference?_mono rfl (path?_mono hpaths), fun _ => path?_mono hpaths⟩

theorem extends_bindReference {node : NodeId} (hnew : r.reference? t node = none)
    (decl : NodeId) : (r.bindReference node decl).resolver.Extends t r.resolver := by
  refine ⟨?_, fun _ => path?_mono fun h => h⟩
  intro x d _ h
  change r.reference? t x = some d at h
  have hne : node.index ≠ x.index := by
    intro he
    rw [← NodeId.index_inj.mp he, hnew] at h
    cases h
  have hrefs : (r.bindReference node decl).references[x.index]? = r.references[x.index]? := by
    rw [ResolvedNames.bindReference, Std.TreeMap.getElem?_insert, if_neg (by simpa using hne)]
  exact reference?_mono hrefs (path?_mono fun h => h) h

/-- A path as the resolver looks it up, where a bare `Self` starts a look-up of its own for the
target around it; nothing if more than `depth` look-ups would be open inside each other. -/
def lookUp (r : ResolvedNames) (t : SyntaxTree) :
    Nat → SymbolPath → NodeId → Option (Option NodeId)
  | 0, _, _ => none
  | depth + 1, p, scope =>
    if p.isBareSelfType then
      match t.enclosing? NodeKind.isImplOrTrait scope with
      | none => some none
      | some owner =>
        match t.kind? owner with
        | some (.item (.trait ..)) => some (some owner)
        | some (.item (.impl _ _ (some target) _)) =>
          match t.kind? target with
          | some (.typeExpr (.path q)) =>
            if q.head = .selfType then some none else lookUp r t depth q target
          | _ => some none
        | _ => some none
    else some (r.ordinaryPath? t p scope)

theorem lookUp_eq (r : ResolvedNames) (t : SyntaxTree) (depth : Nat) (p : SymbolPath)
    (scope : NodeId) : r.lookUp t (depth + 2) p scope = some (r.path? t p scope) := by
  have hordinary {q : SymbolPath} (hq : q.head ≠ .selfType) (target : NodeId) :
      r.lookUp t (depth + 1) q target = some (r.ordinaryPath? t q target) := by
    rw [lookUp, if_neg (by simp [SymbolPath.isBareSelfType, hq])]
  have htarget (target : NodeId) :
      (match t.kind? target with
        | some (.typeExpr (.path q)) =>
          if q.head = .selfType then some none else r.lookUp t (depth + 1) q target
        | _ => some none) =
      some (match t.kind? target with
        | some (.typeExpr (.path q)) =>
          if q.head = .selfType then none else r.ordinaryPath? t q target
        | _ => none) := by
    cases t.kind? target with
    | none => rfl
    | some kind =>
      cases kind with
      | typeExpr e =>
        cases e with
        | path q =>
          by_cases hs : q.head = .selfType
          · exact (if_pos hs).trans (congrArg some (if_pos hs)).symm
          · exact ((if_neg hs).trans (hordinary hs target)).trans (congrArg some (if_neg hs)).symm
        | _ => rfl
      | _ => rfl
  rw [lookUp, path?]
  by_cases hp : p.isBareSelfType = true
  · rw [if_pos hp, if_pos hp, selfType?]
    cases t.enclosing? NodeKind.isImplOrTrait scope with
    | none => rfl
    | some owner =>
      rw [Option.bind_eq_bind, Option.bind_some]
      dsimp only
      cases t.kind? owner with
      | none => rfl
      | some kind =>
        cases kind with
        | item i =>
          cases i with
          | impl _ _ target _ =>
            cases target with
            | none => rfl
            | some target => exact htarget target
          | _ => rfl
        | _ => rfl
  · rw [if_neg hp, if_neg hp]

end ResolvedNames

/-- A table of declarations in the tree, or the resolver that knows no name. -/
inductive Resolver.Tabled (t : SyntaxTree) : Resolver → Prop where
  | none : Tabled t .none
  | names {r : ResolvedNames} : r.Within t → Tabled t r.resolver

theorem Resolver.Tabled.within {t : SyntaxTree} {r : Resolver} (h : r.Tabled t) (ht : t.Ordered) :
    r.Within t := by
  cases h with
  | none => exact within_none t
  | names hr => exact hr.resolver ht

end TypeDerivation
