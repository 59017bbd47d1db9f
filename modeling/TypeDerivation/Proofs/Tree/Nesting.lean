import TypeDerivation.Proofs.Span
import TypeDerivation.Proofs.Tree.Walk

/-!
Spans along the tree. A computed span is the hull of the spans of the children, so in a tree where
spans are given by hand to leaves only, and early enough, each node covers all that is below it.
-/

namespace TypeDerivation

namespace SyntaxTree

variable {t t' : SyntaxTree} {id child parent above a b x y : NodeId} {kind : NodeKind}
  {span : Span} {offset : Nat}

theorem lt_of_contains (h : (t.span id).contains offset = true) : id.index < t.size := by
  by_contra hid
  rw [SyntaxTree.span, get?_eq_none_iff.mpr (Nat.le_of_not_lt hid)] at h
  simp [Span.dummy, Span.contains] at h

/-- A node covers every offset that one of its children covers. -/
def Nested (t : SyntaxTree) : Prop :=
  ∀ ⦃child parent⦄, t.parent? child = some parent → (t.span parent).Covers (t.span child)

/-- Children of one node share no offset, and neither do roots. -/
structure Apart (t : SyntaxTree) : Prop where
  siblings : ∀ {a b parent offset}, t.parent? a = some parent → t.parent? b = some parent →
    (t.span a).contains offset = true → (t.span b).contains offset = true → a = b
  roots : ∀ {a b offset}, a ∈ t.roots → b ∈ t.roots →
    (t.span a).contains offset = true → (t.span b).contains offset = true → a = b

theorem apart_of_ids (h : ∀ a ∈ t.ids, ∀ b ∈ t.ids, t.parent? a = t.parent? b →
    max (t.span a).start (t.span b).start < min (t.span a).stop (t.span b).stop → a = b) :
    t.Apart := by
  have hpair {a b : NodeId} {offset : Nat} (hp : t.parent? a = t.parent? b)
      (ha : (t.span a).contains offset = true) (hb : (t.span b).contains offset = true) : a = b :=
    h a (mem_ids_iff.mpr (lt_of_contains ha)) b (mem_ids_iff.mpr (lt_of_contains hb)) hp
      (Span.overlap_of_contains ha hb)
  constructor
  · intro a b parent offset hpa hpb ha hb
    exact hpair (hpa.trans hpb.symm) ha hb
  · intro a b offset hra hrb ha hb
    exact hpair ((mem_roots_iff.mp hra).2.trans (mem_roots_iff.mp hrb).2.symm) ha hb

theorem Nested.covers_of_under (hn : t.Nested) (h : t.Under x a) :
    (t.span a).Covers (t.span x) := by
  induction h with
  | refl => exact .refl _
  | tail _ hp ih => exact (hn hp).trans ih

theorem Nested.covers_of_mem_ancestors (hn : t.Nested) (ht : t.Ordered)
    (h : above ∈ t.ancestors id) : (t.span above).Covers (t.span id) := by
  obtain ⟨parent, hp, hu⟩ := ht.mem_ancestors_iff.mp h
  exact hn.covers_of_under (.head hp hu)

theorem Nested.under_or_under (hn : t.Nested) (ht : t.Ordered) (ha : t.Apart)
    (hx : (t.span x).contains offset = true) (hy : (t.span y).contains offset = true) :
    t.Under x y ∨ t.Under y x := by
  -- going up from `x`, the node that is a sibling of `x`, or a root beside it, would be `x` itself
  induction x using ht.upward_induction with
  | root x hp =>
    obtain ⟨root, hr, hyr⟩ := under_root ht (lt_of_contains hy)
    have hxr : x ∈ t.roots := mem_roots_iff.mpr ⟨lt_of_contains hx, hp⟩
    obtain rfl := ha.roots hxr hr hx (hn.covers_of_under hyr offset hy)
    exact .inr hyr
  | child x parent hp ih =>
    rcases ih (hn hp offset hx) with hpy | hyp
    · exact .inl (.head hp hpy)
    · rcases Relation.ReflTransGen.cases_tail hyp with rfl | ⟨sibling, hys, hs⟩
      · exact .inl (.single hp)
      · obtain rfl := ha.siblings hp hs hx (hn.covers_of_under hys offset hy)
        exact .inr hys

theorem nested_addAt (ha : t.Agreeing) (hn : t.Nested) (h : t.addAt kind span = .ok (id, t'))
    (hspan : ∀ child ∈ kind.children, span.Covers (t.span child)) : t'.Nested := by
  intro child parent hp
  rw [parent?_addAt h] at hp
  rw [span_addAt h, span_addAt h]
  by_cases hc : child ∈ kind.children
  · have hne : child ≠ ⟨t.size⟩ := fun he => Nat.lt_irrefl _ (he ▸ lt_of_addAt h hc)
    rw [if_pos hc] at hp
    cases hp
    rw [if_pos rfl, if_neg hne]
    exact hspan child hc
  · rw [if_neg hc] at hp
    have hchild : child ≠ ⟨t.size⟩ := fun he => Nat.lt_irrefl _ (he ▸ lt_of_parent? hp)
    have hparent : parent ≠ ⟨t.size⟩ := fun he =>
      Nat.lt_irrefl _ (he ▸ lt_of_mem_children (ha.mem_children_iff.mpr hp))
    rw [if_neg hparent, if_neg hchild]
    exact hn hp

theorem covers_hullOf (hc : child ∈ kind.children) : (t.hullOf kind).Covers (t.span child) :=
  Span.hull_covers (List.mem_map_of_mem hc)

theorem growing_nested : Growing fun t => t.Agreeing ∧ t.Nested where
  renamed s h := ⟨agreeing_lasting.renamed s h.1, h.2⟩
  grown h hadd := ⟨agreeing_lasting.added h.1 hadd,
    nested_addAt h.1 h.2 hadd fun _ hc => covers_hullOf hc⟩

theorem nested_modify_span (ha : t.Agreeing) (hn : t.Nested) (hc : t.children id = [])
    (hp : t.parent? id = none) :
    Nested { t with nodes := t.nodes.modify id.index ({ · with span := span }) } := by
  intro child parent h
  rw [parent?_modify_span] at h
  have hchild : child ≠ id := by
    rintro rfl
    cases hp.symm.trans h
  have hparent : parent ≠ id := by
    rintro rfl
    have hmem := ha.mem_children_iff.mpr h
    rw [hc] at hmem
    cases hmem
  rw [span_modify_span hparent, span_modify_span hchild]
  exact hn h

end SyntaxTree

/-- Done to the tree, the step gives a span by hand to a node without children or parent at most. -/
def Step.Tidy (t : SyntaxTree) : Step → Prop
  | nodeAt kind span => ∀ {id t'}, t.addAt kind span = .ok (id, t') → kind.children = []
  | setSpan id _ => t.children id = [] ∧ t.parent? id = none
  | intern _ | path _ | node _ | shorthand _ => True

namespace SyntaxTree

inductive BuiltTidily : SyntaxTree → Prop where
  | empty : BuiltTidily empty
  | step {t : SyntaxTree} {s : Step} : BuiltTidily t → s.Tidy t → BuiltTidily (s.run t).2

variable {t t' : SyntaxTree} {id above : NodeId} {kind : NodeKind}

theorem BuiltTidily.built (h : t.BuiltTidily) : t.Built := by
  induction h with
  | empty => exact built_empty
  | @step t s _ _ ih => exact ih.step s

theorem Nested.step (ha : t.Agreeing) (hn : t.Nested) {s : Step} (hs : s.Tidy t) :
    (s.run t).2.Nested := by
  have hkeeps {α : Type} {b : Build α} {f : α → Product}
      (hb : Build.Keeps (fun t => t.Agreeing ∧ t.Nested) b) :
      ((do return f (← b) : Build Product).run.run t).2.Nested :=
    ((hb.bind fun a => Build.keeps_pure (f a)) t ⟨ha, hn⟩).2
  cases s with
  | intern text => exact hkeeps (Build.keeps_intern growing_nested text)
  | path text => exact hkeeps (Build.keeps_path growing_nested text)
  | node kind => exact hkeeps (Build.keeps_node growing_nested kind)
  | shorthand s => exact hkeeps (Build.keeps_shorthand growing_nested s)
  | nodeAt kind span =>
    rw [Step.run, Step.perform, Build.run_bind, Build.run_nodeAt]
    cases he : t.addAt kind span with
    | error e => exact hn
    | ok made =>
      refine nested_addAt ha hn he ?_
      simp [hs he]
  | setSpan id span =>
    rw [Step.run, Step.perform, Build.run_bind, Build.run_setSpan, setSpan]
    by_cases hid : id.index < t.size
    · rw [if_pos hid]
      exact nested_modify_span ha hn hs.1 hs.2
    · rw [if_neg hid]
      exact hn

theorem BuiltTidily.nested (h : t.BuiltTidily) : t.Nested := by
  induction h with
  | empty =>
    intro child parent hp
    simp [parent?, get?, SyntaxTree.empty] at hp
  | step ht hs ih => exact ih.step ht.built.agreeing hs

/-- A computed span is the least one that covers the children, and nothing where there is nothing
to cover; so where spans are given by hand to leaves only, before they have a parent, every offset
of a node is one of all nodes above it. -/
theorem computed_spans_nest :
    (∀ {t t' : SyntaxTree} {kind id}, t.add kind = .ok (id, t') →
      (∀ child ∈ kind.children, (t'.span id).Covers (t.span child)) ∧
      (∀ outer : Span, (∀ child ∈ kind.children, (t.span child).isEmpty = false →
        outer.Covers (t.span child)) → outer.Covers (t'.span id)) ∧
      ((∀ child ∈ kind.children, (t.span child).isEmpty = true) → t'.span id = .dummy)) ∧
    ∀ {t : SyntaxTree}, t.BuiltTidily → ∀ {id above : NodeId}, above ∈ t.ancestors id →
      (t.span above).Covers (t.span id) := by
  refine ⟨?_, ?_⟩
  · intro t t' kind id h
    have hspan : t'.span id = t.hullOf kind := by
      rw [span_addAt h, addAt_id h, if_pos rfl]
    rw [hspan]
    refine ⟨fun child hc => covers_hullOf hc, ?_, ?_⟩
    · intro outer houter
      apply Span.covers_hull_iff.mpr
      rw [List.forall_mem_map]
      intro child hc
      cases he : (t.span child).isEmpty with
      | true => exact Span.covers_of_isEmpty he
      | false => exact houter child hc he
    · intro hempty
      exact Span.hull_eq_dummy (List.forall_mem_map.mpr hempty)
  · intro t ht id above habove
    exact ht.nested.covers_of_mem_ancestors ht.built.ordered habove

/-- Two unit values, of which the second one is placed later, and one without a span. -/
def spacedLeaves : SyntaxTree :=
  .afterSteps .empty [.nodeAt (.expr .unit) ⟨1, 3⟩, .node (.expr .unit), .node (.expr .unit),
    .setSpan ⟨1⟩ ⟨5, 7⟩]

def spacedTuple : SyntaxTree :=
  .afterSteps spacedLeaves [.node (.expr (.tuple [⟨0⟩, ⟨1⟩, ⟨2⟩]))]

/-- A block with a tuple of the three. -/
def spacedBlock : SyntaxTree := .afterSteps spacedTuple [.shorthand (.block [] (some ⟨3⟩))]

theorem spacedLeaves_builtTidily : spacedLeaves.BuiltTidily := by
  have hplaced : BuiltTidily (.afterSteps .empty [.nodeAt (.expr .unit) ⟨1, 3⟩]) :=
    .step .empty fun _ => rfl
  have hleaves : BuiltTidily (.afterSteps .empty [.nodeAt (.expr .unit) ⟨1, 3⟩, .node (.expr .unit),
      .node (.expr .unit)]) := .step (.step hplaced trivial) trivial
  exact .step hleaves ⟨rfl, rfl⟩

theorem spacedBlock_builtTidily : spacedBlock.BuiltTidily :=
  .step (.step spacedLeaves_builtTidily trivial) trivial

theorem computed_spans_nest_spacedBlock :
    spacedLeaves.add (.expr (.tuple [⟨0⟩, ⟨1⟩, ⟨2⟩])) = .ok (⟨3⟩, spacedTuple) ∧
      (spacedTuple.span ⟨3⟩).Covers (spacedLeaves.span ⟨1⟩) ∧
      Span.Covers ⟨0, 7⟩ (spacedTuple.span ⟨3⟩) ∧
      spacedBlock.BuiltTidily ∧ ⟨5⟩ ∈ spacedBlock.ancestors ⟨1⟩ ∧
      (spacedBlock.span ⟨5⟩).Covers (spacedBlock.span ⟨1⟩) := by
  have hadd : spacedLeaves.add (.expr (.tuple [⟨0⟩, ⟨1⟩, ⟨2⟩])) = .ok (⟨3⟩, spacedTuple) := rfl
  have habove : ⟨5⟩ ∈ spacedBlock.ancestors ⟨1⟩ := by decide
  have h := computed_spans_nest.1 hadd
  refine ⟨hadd, h.1 ⟨1⟩ (by decide), h.2.1 ⟨0, 7⟩ ?_, spacedBlock_builtTidily, habove,
    computed_spans_nest.2 spacedBlock_builtTidily habove⟩
  intro child hc hfull
  rw [Span.covers_iff hfull]
  revert child
  decide

end SyntaxTree
end TypeDerivation
