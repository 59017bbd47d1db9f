import Mathlib.Data.List.Nodup
import TypeDerivation.Proofs.Tree.Kinship

/-!
Walking a tree from its roots down. A node is a child of one other node at most, but a kind may
list the same child twice; the walk meets every node once exactly if no kind does.
-/

namespace TypeDerivation

namespace SyntaxTree

section

variable (t : SyntaxTree)

def preorderWithin : Nat → NodeId → List NodeId
  | 0, _ => []
  | fuel + 1, id => id :: (t.children id).flatMap (preorderWithin fuel)

/-- A node and the nodes below it, each before those that it lists. A child comes earlier in the
tree than its parent, so no way down is longer than the number of the node. -/
def preorder (id : NodeId) : List NodeId := t.preorderWithin (id.index + 1) id

def walk : List NodeId := t.roots.flatMap t.preorder

end

variable {t : SyntaxTree} {id child above x : NodeId}

theorem nodup_ids (t : SyntaxTree) : t.ids.Nodup := by
  refine List.nodup_range.map ?_
  intro m n h
  exact congrArg NodeId.index h

theorem nodup_roots (t : SyntaxTree) : t.roots.Nodup := t.nodup_ids.filter _

theorem children_subset_ids (h : child ∈ t.children id) : id ∈ t.ids :=
  mem_ids_iff.mpr (lt_of_mem_children h)

namespace Ordered

variable (ht : t.Ordered)
include ht

theorem child_index_lt (h : child ∈ t.children id) : child.index < id.index := by
  obtain ⟨kind, hk, hc⟩ := mem_children_iff_kind?.mp h
  exact ht.child_lt hk hc

theorem preorderWithin_congr {m n : Nat} (hm : id.index < m) (hn : id.index < n) :
    t.preorderWithin m id = t.preorderWithin n id := by
  induction m generalizing n id with
  | zero => omega
  | succ m ih =>
    obtain ⟨n, rfl⟩ : ∃ k, n = k + 1 := ⟨n - 1, by omega⟩
    rw [preorderWithin, preorderWithin]
    congr 1
    refine List.flatMap_congr fun child hc => ?_
    have := ht.child_index_lt hc
    exact ih (by omega) (by omega)

theorem preorder_eq (id : NodeId) : t.preorder id = id :: (t.children id).flatMap t.preorder := by
  rw [preorder, preorderWithin]
  congr 1
  refine List.flatMap_congr fun child hc => ?_
  have := ht.child_index_lt hc
  exact ht.preorderWithin_congr this (Nat.lt_succ_self _)

/-- What holds of a node if it holds of its children holds of every node. -/
theorem downward_induction {motive : NodeId → Prop}
    (step : ∀ id, (∀ child ∈ t.children id, motive child) → motive id) (id : NodeId) :
    motive id := by
  induction hn : id.index using Nat.strongRecOn generalizing id with
  | ind n ih =>
    apply step
    intro child hc
    have := ht.child_index_lt hc
    exact ih child.index (by omega) child rfl

end Ordered

section

variable (ht : t.Ordered) (ha : t.Agreeing)
include ht ha

theorem mem_preorder_iff : x ∈ t.preorder id ↔ t.Under x id := by
  induction id using ht.downward_induction with
  | step id ih =>
    rw [ht.preorder_eq, List.mem_cons, List.mem_flatMap, Under,
      Relation.ReflTransGen.cases_tail_iff]
    apply or_congr eq_comm
    apply exists_congr
    intro child
    constructor
    · rintro ⟨hc, hx⟩
      exact ⟨(ih child hc).mp hx, ha.mem_children_iff.mp hc⟩
    · rintro ⟨hx, hp⟩
      have hc := ha.mem_children_iff.mpr hp
      exact ⟨hc, (ih child hc).mpr hx⟩

theorem nodup_preorder_step :
    (t.preorder id).Nodup ↔
      (t.children id).Nodup ∧ ∀ child ∈ t.children id, (t.preorder child).Nodup := by
  have hself : id ∉ (t.children id).flatMap t.preorder := by
    rw [List.mem_flatMap]
    rintro ⟨child, hc, hid⟩
    have := ht.child_index_lt hc
    have := ht.le_of_under ((mem_preorder_iff ht ha).mp hid)
    omega
  rw [ht.preorder_eq, List.nodup_cons, List.nodup_flatMap, and_iff_right hself, and_comm]
  apply and_congr_left
  intro _
  constructor
  · intro h
    refine h.imp fun {c d} hdisj he => ?_
    have hmem : c ∈ t.preorder c := (mem_preorder_iff ht ha).mpr .refl
    exact hdisj hmem (he ▸ hmem)
  · intro h
    refine h.imp_of_mem fun {c d} hc hd hne x hxc hxd => hne ?_
    exact ht.eq_of_siblings (ha.mem_children_iff.mp hc) (ha.mem_children_iff.mp hd)
      ((mem_preorder_iff ht ha).mp hxc) ((mem_preorder_iff ht ha).mp hxd)

theorem nodup_preorder_iff :
    (t.preorder id).Nodup ↔ ∀ x, t.Under x id → (t.children x).Nodup := by
  induction id using ht.downward_induction with
  | step id ih =>
    rw [nodup_preorder_step ht ha]
    constructor
    · rintro ⟨hid, hbelow⟩ x hx
      rcases Relation.ReflTransGen.cases_tail hx with rfl | ⟨child, hxc, hp⟩
      · exact hid
      · have hc := ha.mem_children_iff.mpr hp
        exact (ih child hc).mp (hbelow child hc) x hxc
    · intro h
      refine ⟨h id .refl, ?_⟩
      intro child hc
      exact (ih child hc).mpr fun x hx => h x (hx.trans (under_of_mem_children ha hc))

omit ha in
theorem under_root (hid : id.index < t.size) : ∃ root ∈ t.roots, t.Under id root := by
  induction id using ht.upward_induction with
  | root id hp => exact ⟨id, mem_roots_iff.mpr ⟨hid, hp⟩, .refl⟩
  | child id parent hp ih =>
    obtain ⟨root, hr, hu⟩ := ih (ht.parent_lt hp)
    exact ⟨root, hr, .head hp hu⟩

theorem mem_walk_iff : x ∈ t.walk ↔ x ∈ t.ids := by
  rw [walk, List.mem_flatMap, mem_ids_iff]
  constructor
  · rintro ⟨root, hr, hx⟩
    have := ht.le_of_under ((mem_preorder_iff ht ha).mp hx)
    have := (mem_roots_iff.mp hr).1
    omega
  · intro hx
    obtain ⟨root, hr, hu⟩ := under_root ht hx
    exact ⟨root, hr, (mem_preorder_iff ht ha).mpr hu⟩

theorem nodup_walk_iff : t.walk.Nodup ↔ ∀ id, (t.children id).Nodup := by
  have hdisj : t.roots.Pairwise fun r s => (t.preorder r).Disjoint (t.preorder s) := by
    refine t.nodup_roots.imp_of_mem fun {r s} hr hs hne x hxr hxs => hne ?_
    have hr := (mem_roots_iff.mp hr).2
    have hs := (mem_roots_iff.mp hs).2
    have hxr := (mem_preorder_iff ht ha).mp hxr
    have hxs := (mem_preorder_iff ht ha).mp hxs
    rcases hxr.total hxs with h | h
    · rcases under_iff.mp h with rfl | ⟨p, hp, -⟩
      · rfl
      · cases hr.symm.trans hp
    · rcases under_iff.mp h with rfl | ⟨p, hp, -⟩
      · rfl
      · cases hs.symm.trans hp
  rw [walk, List.nodup_flatMap, and_iff_left hdisj]
  constructor
  · intro h id
    cases hc : t.children id with
    | nil => exact List.nodup_nil
    | cons c rest =>
      have hid : id.index < t.size := lt_of_mem_children (hc ▸ List.mem_cons_self)
      obtain ⟨root, hr, hu⟩ := under_root ht hid
      exact hc ▸ (nodup_preorder_iff ht ha).mp (h root hr) id hu
  · intro h root _
    exact (nodup_preorder_iff ht ha).mpr fun x _ => h x

theorem walk_perm_ids_iff : t.walk.Perm t.ids ↔ ∀ id, (t.children id).Nodup := by
  rw [← nodup_walk_iff ht ha]
  constructor
  · intro h
    exact h.nodup_iff.mpr t.nodup_ids
  · intro h
    exact (List.perm_ext_iff_of_nodup h t.nodup_ids).mpr fun x => mem_walk_iff ht ha

omit ht in
theorem nodup_child_lists_iff :
    (t.ids.flatMap t.children).Nodup ↔ ∀ id, (t.children id).Nodup := by
  have hdisj : t.ids.Pairwise fun x y => (t.children x).Disjoint (t.children y) :=
    t.nodup_ids.imp fun {x y} hne c hx hy => hne (ha.parent_unique hx hy)
  rw [List.nodup_flatMap, and_iff_left hdisj]
  constructor
  · intro h id
    cases hc : t.children id with
    | nil => exact List.nodup_nil
    | cons c rest => exact hc ▸ h id (children_subset_ids (hc ▸ List.mem_cons_self))
  · intro h id _
    exact h id

end

/-- A kind that lists a node with a parent, and no node outside the tree, is turned away. -/
theorem addAt_of_parented {kind : NodeKind} {parent : NodeId} (span : Span)
    (hc : child ∈ kind.children) (hp : t.parent? child = some parent)
    (hin : ∀ x ∈ kind.children, x.index < t.size) :
    ∃ c ∈ kind.children, ∃ p, t.parent? c = some p ∧
      t.addAt kind span = .error (.alreadyParented c p) := by
  have herror {x : NodeId} (hx : x ∈ kind.children) :
      t.childError? x = (t.parent? x).map (.alreadyParented x) := by
    obtain ⟨n, hn⟩ := Option.isSome_iff_exists.mp (get?_isSome_iff.mpr (hin x hx))
    rw [childError?, parent?, hn]
    rfl
  cases he : kind.children.findSome? t.childError? with
  | none =>
    have := List.findSome?_eq_none_iff.mp he child hc
    rw [herror hc, hp] at this
    cases this
  | some e =>
    obtain ⟨c, hmem, hce⟩ := List.exists_of_findSome?_eq_some he
    rw [herror hmem] at hce
    obtain ⟨p, hcp, rfl⟩ := Option.map_eq_some_iff.mp hce
    refine ⟨c, hmem, p, hcp, ?_⟩
    rw [addAt, he]

/-- No node is a child of two others, and a kind that lists a child of another node is turned away;
so all lists of children together name no node twice, and the walk from the roots meets every node
once, exactly if no single list names a node twice. -/
theorem children_listed_once_iff (ht : t.Built) :
    ((t.ids.flatMap t.children).Nodup ↔ ∀ id, (t.children id).Nodup) ∧
    (t.walk.Perm t.ids ↔ ∀ id, (t.children id).Nodup) ∧
    (∀ a b child, child ∈ t.children a → child ∈ t.children b → a = b) ∧
    ∀ a kind span child, child ∈ t.children a → child ∈ kind.children →
      (∀ x ∈ kind.children, x.index < t.size) →
      ∃ c ∈ kind.children, ∃ p, t.parent? c = some p ∧
        t.addAt kind span = .error (.alreadyParented c p) := by
  have ho := ht.ordered
  have ha := ht.agreeing
  refine ⟨nodup_child_lists_iff ha, walk_perm_ids_iff ho ha, ?_, ?_⟩
  · intro a b child hca hcb
    exact ha.parent_unique hca hcb
  · intro a kind span child hca hc hin
    exact addAt_of_parented span hc (ha.mem_children_iff.mp hca) hin

theorem children_listed_once_iff_brackets :
    brackets.Built ∧ (brackets.ids.flatMap brackets.children).Nodup ∧
      brackets.walk.Perm brackets.ids ∧ ⟨0⟩ ∈ brackets.children ⟨1⟩ ∧
      ∃ c ∈ (NodeKind.expr (.paren ⟨0⟩)).children, ∃ p, brackets.parent? c = some p ∧
        brackets.addAt (.expr (.paren ⟨0⟩)) .dummy = .error (.alreadyParented c p) :=
  have h := children_listed_once_iff brackets_built
  have hlists : (brackets.ids.flatMap brackets.children).Nodup := by decide
  have hmem : (⟨0⟩ : NodeId) ∈ brackets.children ⟨1⟩ := by decide
  ⟨brackets_built, hlists, h.2.1.mpr (h.1.mp hlists), hmem,
    h.2.2.2 ⟨1⟩ (.expr (.paren ⟨0⟩)) .dummy ⟨0⟩ hmem (by decide) (by decide)⟩

/-- A tuple of a unit value and the same unit value. -/
def doubled : SyntaxTree :=
  .afterSteps .empty [.node (.expr .unit), .node (.expr (.tuple [⟨0⟩, ⟨0⟩]))]

theorem child_listed_twice :
    doubled.Built ∧ doubled.children ⟨1⟩ = [⟨0⟩, ⟨0⟩] ∧
      ¬(doubled.ids.flatMap doubled.children).Nodup ∧ ¬doubled.walk.Perm doubled.ids :=
  ⟨⟨_, rfl⟩, rfl, by decide, by decide⟩

end SyntaxTree
end TypeDerivation
