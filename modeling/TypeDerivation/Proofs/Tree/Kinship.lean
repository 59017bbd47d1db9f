import Mathlib.Data.List.Chain
import Mathlib.Logic.Relation
import TypeDerivation.Proofs.Tree.Growth
import TypeDerivation.Tree.Ancestry

/-!
Children and parents. A node lists a child exactly if the child names it as its parent, so the way
up from a node is the way down to it, read backwards.
-/

namespace TypeDerivation

namespace SyntaxTree

variable {t t' : SyntaxTree} {id child parent a b x above : NodeId} {kind : NodeKind} {span : Span}

theorem mem_roots_iff : id ∈ t.roots ↔ id.index < t.size ∧ t.parent? id = none := by
  simp [roots, mem_ids_iff]

theorem mem_children_iff_kind? :
    child ∈ t.children id ↔ ∃ kind, t.kind? id = some kind ∧ child ∈ kind.children := by
  rw [children]
  cases t.kind? id <;> simp

theorem children_addAt (h : t.addAt kind span = .ok (id, t')) (x : NodeId) :
    t'.children x = if x = ⟨t.size⟩ then kind.children else t.children x := by
  rw [children, kind?_addAt h]
  by_cases hx : x = ⟨t.size⟩
  · rw [if_pos hx, if_pos hx]
    rfl
  · rw [if_neg hx, if_neg hx]
    rfl

theorem lt_of_mem_children (h : child ∈ t.children id) : id.index < t.size := by
  obtain ⟨kind, hk, -⟩ := mem_children_iff_kind?.mp h
  exact lt_of_kind? hk

/-- A node names as its parent the node that lists it. -/
structure Agreeing (t : SyntaxTree) : Prop where
  mem_children_iff : ∀ {id child}, child ∈ t.children id ↔ t.parent? child = some id

theorem agreeing_lasting : Lasting Agreeing where
  empty := ⟨fun {id child} => by simp [children, kind?, parent?, get?, empty]⟩
  renamed _ h := ⟨h.mem_children_iff⟩
  added {t t' kind span id} h ha := by
    refine ⟨?_⟩
    intro x child
    rw [children_addAt ha, parent?_addAt ha]
    -- the new node is not yet anybody's parent, and those it lists had none
    have hnew : t.parent? child ≠ some ⟨t.size⟩ := fun hp =>
      Nat.lt_irrefl _ (lt_of_mem_children (h.mem_children_iff.mpr hp))
    have hfree (hc : child ∈ kind.children) : t.parent? child = none := by
      obtain ⟨n, hn, hp⟩ := free_of_addAt ha hc
      rw [parent?, hn]
      exact hp
    by_cases hx : x = ⟨t.size⟩
    · rw [if_pos hx]
      by_cases hc : child ∈ kind.children
      · simp [hc, hx]
      · simp [hc, hx, hnew]
    · rw [if_neg hx, h.mem_children_iff]
      by_cases hc : child ∈ kind.children
      · rw [if_pos hc, hfree hc]
        simp [Ne.symm hx]
      · rw [if_neg hc]
  moved id span h := by
    refine ⟨?_⟩
    intro x child
    rw [children, kind?_modify_span, parent?_modify_span]
    exact h.mem_children_iff

theorem Built.agreeing (ht : t.Built) : t.Agreeing := agreeing_lasting.of_built ht

theorem Agreeing.parent?_of_kind? (ht : t.Agreeing) (hk : t.kind? id = some kind)
    (hc : child ∈ kind.children) : t.parent? child = some id :=
  ht.mem_children_iff.mp (mem_children_iff_kind?.mpr ⟨kind, hk, hc⟩)

theorem Agreeing.parent_unique (ht : t.Agreeing) (ha : child ∈ t.children a)
    (hb : child ∈ t.children b) : a = b := by
  have ha := ht.mem_children_iff.mp ha
  have hb := ht.mem_children_iff.mp hb
  exact Option.some.inj (ha.symm.trans hb)

theorem variantEnum?_eq_some_iff (ht : t.Agreeing) {variant enum : NodeId} :
    t.variantEnum? variant = some enum ↔ ∃ body, t.holds NodeKind.isEnumBody body = true ∧
      variant ∈ t.children body ∧ t.holds NodeKind.isEnum enum = true ∧ body ∈ t.children enum := by
  simp only [variantEnum?, Option.bind_eq_bind, Option.bind_eq_some_iff, Option.filter_eq_some_iff,
    ht.mem_children_iff]
  constructor
  · rintro ⟨body, ⟨hv, hbody⟩, hb, henum⟩
    exact ⟨body, hbody, hv, henum, hb⟩
  · rintro ⟨body, hbody, hv, henum, hb⟩
    exact ⟨body, ⟨hv, hbody⟩, hb, henum⟩

/-- The way up from a node leads to another one, or is there already. -/
def Under (t : SyntaxTree) : NodeId → NodeId → Prop :=
  Relation.ReflTransGen fun child parent => t.parent? child = some parent

theorem Under.total (ha : t.Under x a) (hb : t.Under x b) : t.Under a b ∨ t.Under b a := by
  refine Relation.ReflTransGen.total_of_right_unique ?_ ha hb
  intro child p q hp hq
  exact Option.some.inj (hp.symm.trans hq)

theorem under_iff : t.Under x a ↔ x = a ∨ ∃ p, t.parent? x = some p ∧ t.Under p a := by
  rw [Under]
  exact Relation.ReflTransGen.cases_head_iff

theorem under_of_mem_children (ht : t.Agreeing) (h : child ∈ t.children id) : t.Under child id :=
  .single (ht.mem_children_iff.mp h)

theorem find?_eq_some_iff_least {ids : List NodeId} {p : NodeId → Bool}
    (h : ids.Pairwise fun x y => x.index < y.index) :
    ids.find? p = some a ↔ (a ∈ ids ∧ p a = true) ∧ ∀ b ∈ ids, p b = true → a.index ≤ b.index := by
  induction ids with
  | nil => simp
  | cons x rest ih =>
    obtain ⟨hx, hrest⟩ := List.pairwise_cons.mp h
    by_cases hp : p x = true
    · rw [List.find?_cons_of_pos hp]
      constructor
      · rintro ⟨⟩
        refine ⟨⟨List.mem_cons_self, hp⟩, ?_⟩
        intro b hb _
        rcases List.mem_cons.mp hb with rfl | hb
        · exact Nat.le_refl _
        · exact Nat.le_of_lt (hx b hb)
      · rintro ⟨⟨ha, -⟩, hmin⟩
        have hle := hmin x List.mem_cons_self hp
        rcases List.mem_cons.mp ha with rfl | ha
        · rfl
        · have := hx a ha
          omega
    · rw [List.find?_cons_of_neg hp, ih hrest]
      constructor
      · rintro ⟨⟨ha, hpa⟩, hmin⟩
        refine ⟨⟨List.mem_cons_of_mem _ ha, hpa⟩, ?_⟩
        intro b hb hpb
        rcases List.mem_cons.mp hb with rfl | hb
        · exact absurd hpb hp
        · exact hmin b hb hpb
      · rintro ⟨⟨ha, hpa⟩, hmin⟩
        rcases List.mem_cons.mp ha with rfl | ha
        · exact absurd hpa hp
        · exact ⟨⟨ha, hpa⟩, fun b hb => hmin b (List.mem_cons_of_mem _ hb)⟩

namespace Ordered

variable (ht : t.Ordered)
include ht

theorem le_of_under (h : t.Under x a) : x.index ≤ a.index := by
  induction h with
  | refl => exact Nat.le_refl _
  | tail _ hp ih =>
    have := ht.lt_parent hp
    omega

theorem under_antisymm (h : t.Under a b) (h' : t.Under b a) : a = b := by
  have := ht.le_of_under h
  have := ht.le_of_under h'
  exact NodeId.index_inj.mp (by omega)

theorem eq_of_siblings (ha : t.parent? a = some parent) (hb : t.parent? b = some parent)
    (hxa : t.Under x a) (hxb : t.Under x b) : a = b := by
  -- were one of them strictly below the other, their parent would be as well
  have hnot {c d : NodeId} (hc : t.parent? c = some parent) (hd : t.parent? d = some parent)
      (h : t.Under c d) : c = d := by
    rcases under_iff.mp h with rfl | ⟨p, hp, hpd⟩
    · rfl
    · cases hc.symm.trans hp
      have := ht.le_of_under hpd
      have := ht.lt_parent hd
      omega
  rcases hxa.total hxb with h | h
  · exact hnot ha hb h
  · exact (hnot hb ha h).symm

/-- What holds of a node without a parent, and of each child of a node that it holds of, holds of
every node. -/
theorem upward_induction {motive : NodeId → Prop}
    (root : ∀ id, t.parent? id = none → motive id)
    (child : ∀ id parent, t.parent? id = some parent → motive parent → motive id) (id : NodeId) :
    motive id := by
  induction hn : t.size - id.index using Nat.strongRecOn generalizing id with
  | ind n ih =>
    cases hp : t.parent? id with
    | none => exact root id hp
    | some parent =>
      have := ht.lt_parent hp
      have := ht.parent_lt hp
      exact child id parent hp (ih _ (by omega) parent rfl)

theorem climb_stable (fuel : Nat) (h : t.size ≤ id.index + fuel) :
    t.climb (fuel + 1) id = t.climb fuel id := by
  induction fuel generalizing id with
  | zero =>
    have hnone : t.parent? id = none := by
      cases hp : t.parent? id with
      | none => rfl
      | some p =>
        have := ht.lt_parent hp
        have := ht.parent_lt hp
        omega
    rw [climb, climb, hnone]
  | succ fuel ih =>
    rw [climb, climb]
    cases hp : t.parent? id with
    | none => rfl
    | some p =>
      have := ht.lt_parent hp
      have hup : t.climb (fuel + 1) p = t.climb fuel p := ih (by omega)
      simp only [hup]

theorem ancestors_eq_cons (hp : t.parent? id = some parent) :
    t.ancestors id = parent :: t.ancestors parent := by
  rw [ancestors, ← ht.climb_stable t.size (by omega), climb, hp]
  rfl

theorem mem_ancestors_iff :
    above ∈ t.ancestors id ↔ ∃ parent, t.parent? id = some parent ∧ t.Under parent above := by
  induction id using ht.upward_induction with
  | root id hp => simp [ancestors_eq_nil hp, hp]
  | child id parent hp ih =>
    rw [ht.ancestors_eq_cons hp, List.mem_cons, ih, hp]
    constructor
    · rintro (rfl | ⟨p, hpp, hu⟩)
      · exact ⟨above, rfl, .refl⟩
      · exact ⟨parent, rfl, .head hpp hu⟩
    · rintro ⟨_, ⟨⟩, hu⟩
      exact (under_iff.mp hu).imp_left Eq.symm

theorem isAncestorOrSelf_iff : t.isAncestorOrSelf above id = true ↔ t.Under id above := by
  simp only [isAncestorOrSelf, Bool.or_eq_true, decide_eq_true_eq, List.contains_iff_mem,
    ht.mem_ancestors_iff]
  exact under_iff.symm

theorem index_lt_of_mem_ancestors (h : above ∈ t.ancestors id) : id.index < above.index := by
  obtain ⟨parent, hp, hu⟩ := ht.mem_ancestors_iff.mp h
  have := ht.lt_parent hp
  have := ht.le_of_under hu
  omega

theorem ancestors_chain (id : NodeId) :
    (id :: t.ancestors id).IsChain fun child parent => t.parent? child = some parent := by
  induction id using ht.upward_induction with
  | root id hp =>
    rw [ancestors_eq_nil hp]
    exact .singleton _
  | child id parent hp ih =>
    rw [ht.ancestors_eq_cons hp]
    exact .cons_cons hp ih

theorem ancestors_increasing (id : NodeId) :
    (id :: t.ancestors id).Pairwise fun x y => x.index < y.index := by
  induction id using ht.upward_induction with
  | root id hp =>
    rw [ancestors_eq_nil hp]
    exact List.pairwise_singleton _ _
  | child id parent hp ih =>
    refine List.pairwise_cons.mpr ⟨fun above h => ht.index_lt_of_mem_ancestors h, ?_⟩
    rw [ht.ancestors_eq_cons hp]
    exact ih

theorem last_mem_roots (hid : id.index < t.size) :
    ∃ root ∈ t.roots, (id :: t.ancestors id).getLast? = some root := by
  induction id using ht.upward_induction with
  | root id hp =>
    rw [ancestors_eq_nil hp]
    exact ⟨id, mem_roots_iff.mpr ⟨hid, hp⟩, rfl⟩
  | child id parent hp ih =>
    rw [ht.ancestors_eq_cons hp, List.getLast?_cons_cons]
    exact ih (ht.parent_lt hp)

theorem enclosing?_eq_some_iff {p : NodeKind → Bool} :
    t.enclosing? p id = some above ↔ (above ∈ t.ancestors id ∧ t.holds p above = true) ∧
      ∀ b ∈ t.ancestors id, t.holds p b = true → above.index ≤ b.index :=
  find?_eq_some_iff_least (List.pairwise_cons.mp (ht.ancestors_increasing id)).2

/-- From a node the nearest one above with `q`, which is a special case of `p`, is the nearest one
with `p` or stands above that. -/
theorem enclosing?_of_enclosing? {p q : NodeKind → Bool} (hqp : ∀ k, q k = true → p k = true)
    (h : t.enclosing? p id = some above) :
    t.enclosing? q id = if t.holds q above = true then some above else t.enclosing? q above := by
  -- below the node with `p` neither search stops
  induction id using ht.upward_induction with
  | root id hp =>
    rw [enclosing?, ancestors_eq_nil hp] at h
    cases h
  | child id parent hp ih =>
    rw [enclosing?, ht.ancestors_eq_cons hp] at h ⊢
    by_cases hparent : t.holds p parent = true
    · rw [List.find?_cons_of_pos hparent] at h
      obtain rfl := Option.some.inj h
      by_cases hq : t.holds q parent = true
      · rw [List.find?_cons_of_pos hq, if_pos hq]
      · rw [List.find?_cons_of_neg hq, if_neg hq]
        rfl
    · have hq : ¬t.holds q parent = true := by
        intro hq
        apply hparent
        rw [holds, Option.any_eq_true] at hq ⊢
        obtain ⟨k, hk, hq⟩ := hq
        exact ⟨k, hk, hqp k hq⟩
      rw [List.find?_cons_of_neg hparent] at h
      rw [List.find?_cons_of_neg hq]
      exact ih h

end Ordered

/-- However a tree came about, its parent links and its lists of children say the same; the way up
from a node is a chain of ever later nodes that ends at a root. -/
theorem kinship_consistent (ht : t.Built) :
    (∀ id child, (child ∈ t.children id ↔ t.parent? child = some id) ∧
      (child ∈ t.children id → child.index < id.index)) ∧
    (∀ id, id.index < t.size →
      ((id :: t.ancestors id).IsChain fun child parent => t.parent? child = some parent) ∧
      ((id :: t.ancestors id).Pairwise fun x y => x.index < y.index) ∧
      ∃ root ∈ t.roots, (id :: t.ancestors id).getLast? = some root) ∧
    (∀ id, id ∈ t.roots ↔ id.index < t.size ∧ ∀ parent, id ∉ t.children parent) ∧
    ((∀ a, t.isAncestorOrSelf a a = true) ∧
      (∀ a b, t.isAncestorOrSelf a b = true → t.isAncestorOrSelf b a = true → a = b) ∧
      ∀ a b c, t.isAncestorOrSelf a b = true → t.isAncestorOrSelf b c = true →
        t.isAncestorOrSelf a c = true) ∧
    ∀ p id above, t.enclosing? p id = some above ↔
      (above ∈ t.ancestors id ∧ t.holds p above = true) ∧
        ∀ b ∈ t.ancestors id, t.holds p b = true → above.index ≤ b.index := by
  have ho := ht.ordered
  have hagree := ht.agreeing
  refine ⟨?_, ?_, ?_, ⟨?_, ?_, ?_⟩, ?_⟩
  · intro id child
    refine ⟨hagree.mem_children_iff, ?_⟩
    intro hc
    exact ho.lt_parent (hagree.mem_children_iff.mp hc)
  · intro id hid
    exact ⟨ho.ancestors_chain id, ho.ancestors_increasing id, ho.last_mem_roots hid⟩
  · intro id
    simp only [mem_roots_iff, hagree.mem_children_iff, Option.eq_none_iff_forall_ne_some, ne_eq]
  · intro a
    exact ho.isAncestorOrSelf_iff.mpr .refl
  · intro a b hab hba
    rw [ho.isAncestorOrSelf_iff] at hab hba
    exact ho.under_antisymm hba hab
  · intro a b c hab hbc
    rw [ho.isAncestorOrSelf_iff] at *
    exact hbc.trans hab
  · intro p id above
    exact ho.enclosing?_eq_some_iff

/-- Two brackets around a unit value; between them a third one is turned away. -/
def brackets : SyntaxTree :=
  .afterSteps .empty [.node (.expr .unit), .node (.expr (.paren ⟨0⟩)), .node (.expr (.paren ⟨0⟩)),
    .setSpan ⟨7⟩ ⟨0, 1⟩, .nodeAt (.expr (.paren ⟨1⟩)) ⟨0, 5⟩]

theorem brackets_built : brackets.Built := ⟨_, rfl⟩

theorem kinship_consistent_brackets :
    brackets.Built ∧ brackets.parent? ⟨0⟩ = some ⟨1⟩ ∧
      (∃ root ∈ brackets.roots, (⟨0⟩ :: brackets.ancestors ⟨0⟩).getLast? = some root) ∧
      ⟨2⟩ ∈ brackets.roots ∧ brackets.isAncestorOrSelf ⟨2⟩ ⟨0⟩ = true ∧
      brackets.enclosing? NodeKind.isExpr ⟨0⟩ = some ⟨1⟩ :=
  have h := kinship_consistent brackets_built
  have htop : brackets.parent? ⟨2⟩ = none := rfl
  ⟨brackets_built, (h.1 ⟨1⟩ ⟨0⟩).1.mp (by decide), (h.2.1 ⟨0⟩ (by decide)).2.2,
    (h.2.2.1 ⟨2⟩).mpr ⟨by decide, fun parent hc => by simp [(h.1 parent ⟨2⟩).1.mp hc] at htop⟩,
    h.2.2.2.1.2.2 ⟨2⟩ ⟨1⟩ ⟨0⟩ (by decide) (by decide),
    (h.2.2.2.2 NodeKind.isExpr ⟨0⟩ ⟨1⟩).mpr (by decide)⟩

end SyntaxTree
end TypeDerivation
