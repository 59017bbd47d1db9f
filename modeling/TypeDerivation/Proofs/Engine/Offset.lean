import TypeDerivation.Proofs.Engine.Answers
import TypeDerivation.Proofs.Engine.Safety
import TypeDerivation.Proofs.Tree.Nesting

/-!
The innermost node at an offset, and its type. The node is picked by the length of its span; where
spans nest, it is the lowest one in the tree as well.
-/

namespace TypeDerivation

namespace SyntaxTree

variable {t : SyntaxTree} {id x : NodeId} {p : NodeKind → Bool} {offset : Nat}

section

variable (ht : t.Ordered) (hn : t.Nested) (hid : t.nodeAtOffset? p offset = some id)
  (hx : t.covers p offset x = true)
include ht hn hid hx

theorem not_mem_ancestors_of_picked : id ∉ t.ancestors x := by
  intro hmem
  have hlength := (hn.covers_of_mem_ancestors ht hmem).length_le
  have hindex := ht.index_lt_of_mem_ancestors hmem
  have hpreferred := (nodeAtOffset?_eq_some_iff.mp hid).2 x hx
  simp only [Preferred] at hpreferred
  omega

theorem mem_ancestors_of_picked (ha : t.Apart) : x = id ∨ x ∈ t.ancestors id := by
  have hoffset {y : NodeId} (hy : t.covers p offset y = true) :
      (t.span y).contains offset = true := (covers_iff.mp hy).2
  have hcovers := (nodeAtOffset?_eq_some_iff.mp hid).1
  rcases hn.under_or_under ht ha (hoffset hx) (hoffset hcovers) with hu | hu
  · rcases under_iff.mp hu with rfl | habove
    · exact .inl rfl
    · exact absurd (ht.mem_ancestors_iff.mpr habove) (not_mem_ancestors_of_picked ht hn hid hx)
  · rcases under_iff.mp hu with rfl | habove
    · exact .inl rfl
    · exact .inr (ht.mem_ancestors_iff.mpr habove)

end

end SyntaxTree

namespace Context

open TypeDerivation.Derivation

variable {c : Context} {id : NodeId} {kind : NodeKind} {offset : Nat}

theorem eval_eq_outcome {α : Type} (d : Derivation α) (g : Guards) :
    c.eval d g = (d.outcome (c.answers g), g) := by
  rw [eval, run_eq_replies, answers_eq_replies]

/-- The question that a typeable node stands for. -/
def typeableQuery (id : NodeId) (kind : NodeKind) : Query :=
  if kind.isExpr then .expr id else .entity id

theorem returns_typeableQuery (ht : c.tree.Ordered) (hR : c.resolver.Within c.tree)
    (hk : c.tree.kind? id = some kind) : c.Returns (c.queried (typeableQuery id kind)) := by
  rw [typeableQuery]
  split
  · exact returns_queried ht hR (r := .expr id) rfl (SyntaxTree.lt_of_kind? hk)
  · exact returns_queried ht hR (r := .entity id) rfl (SyntaxTree.lt_of_kind? hk)

theorem typeableType_eq (hk : c.tree.kind? id = some kind) :
    c.typeableType id = c.queried (typeableQuery id kind) := by
  rw [typeableType, kind_eq_done hk, typeableQuery]
  change (if kind.isExpr then exprType id else entityType id) = _
  split <;> rfl

theorem eval_typeAtOffset_none (h : c.tree.nodeAtOffset? NodeKind.isTypeable offset = none)
    (g : Guards) : c.eval (c.typeAtOffset offset) g = (.ok none, g) := by
  rw [typeAtOffset, h]
  rfl

theorem eval_typeAtOffset_some (h : c.tree.nodeAtOffset? NodeKind.isTypeable offset = some id)
    (hk : c.tree.kind? id = some kind) (g : Guards) :
    c.eval (c.typeAtOffset offset) g =
      ((c.answerQuery (typeableQuery id kind) g).1.map fun ty => some (id, ty), g) := by
  rw [answerQuery, eval_eq_outcome, eval_eq_outcome, typeAtOffset, h]
  dsimp only
  rw [outcome_bind, typeableType_eq hk]
  cases (c.queried (typeableQuery id kind)).outcome (c.answers g) <;> rfl

end Context

/-- At an offset the shortest of the nodes asked for is found, and of equally short ones the first.
Where spans nest, none below it will do, and where moreover neighbours share no offset, all that
will do are above it. The type given with it is that of the expression or of what it declares. -/
theorem offset_query_innermost {t : SyntaxTree} (ht : t.Built) :
    (∀ p offset,
      (t.nodeAtOffset? p offset = none ↔ ∀ x, t.covers p offset x = false) ∧
      ∀ id, t.nodeAtOffset? p offset = some id ↔
        t.covers p offset id = true ∧ ∀ x, t.covers p offset x = true → t.Preferred id x) ∧
    (t.Nested → ∀ p offset id, t.nodeAtOffset? p offset = some id →
      ∀ x, t.covers p offset x = true →
        id ∉ t.ancestors x ∧ (t.Apart → x = id ∨ x ∈ t.ancestors id)) ∧
    ∀ (R : Resolver) (s : Settings) (i : Inference) offset,
      let c : Context := ⟨t, R, s, i⟩
      (t.nodeAtOffset? NodeKind.isTypeable offset = none →
        ∀ g, c.eval (c.typeAtOffset offset) g = (.ok none, g)) ∧
      ∀ id kind, t.nodeAtOffset? NodeKind.isTypeable offset = some id → t.kind? id = some kind →
        (∀ g, c.eval (c.typeAtOffset offset) g =
          ((c.answerQuery (Context.typeableQuery id kind) g).1.map fun ty => some (id, ty), g)) ∧
        (R.Tabled t → ∃ ty, c.answerQuery (Context.typeableQuery id kind) .idle = (.ok ty, .idle) ∧
          c.eval (c.typeAtOffset offset) .idle = (.ok (some (id, ty)), .idle)) := by
  have ho := ht.ordered
  refine ⟨?_, ?_, ?_⟩
  · intro p offset
    exact ⟨SyntaxTree.nodeAtOffset?_eq_none_iff, fun id => SyntaxTree.nodeAtOffset?_eq_some_iff⟩
  · intro hn p offset id hid x hx
    exact ⟨SyntaxTree.not_mem_ancestors_of_picked ho hn hid hx,
      SyntaxTree.mem_ancestors_of_picked ho hn hid hx⟩
  · intro R s i offset c
    refine ⟨fun hnone => Context.eval_typeAtOffset_none hnone, ?_⟩
    intro id kind hid hk
    have heval := Context.eval_typeAtOffset_some (c := c) hid hk
    refine ⟨heval, ?_⟩
    intro hR
    obtain ⟨ty, hty⟩ := Context.returns_typeableQuery (c := c) ho (hR.within ho) hk
    refine ⟨ty, hty, ?_⟩
    rw [heval, Context.answerQuery, hty]
    rfl

theorem SyntaxTree.spacedBlock_apart : spacedBlock.Apart := apart_of_ids (by decide)

/-- Between the two values the tuple is found, and not the block around it, which is as long. -/
theorem offset_query_innermost_spacedBlock :
    let t := SyntaxTree.spacedBlock
    let c : Context := ⟨t, .none, .standard, .structural⟩
    t.Built ∧ t.Nested ∧ t.Apart ∧ (Resolver.none).Tabled t ∧
      t.nodeAtOffset? NodeKind.isExpr 4 = some ⟨3⟩ ∧ t.covers NodeKind.isExpr 4 ⟨5⟩ = true ∧
      ⟨3⟩ ∉ t.ancestors ⟨5⟩ ∧ (⟨5⟩ = (⟨3⟩ : NodeId) ∨ ⟨5⟩ ∈ t.ancestors ⟨3⟩) ∧
      t.nodeAtOffset? NodeKind.isTypeable 4 = some ⟨3⟩ ∧
      t.kind? ⟨3⟩ = some (.expr (.tuple [⟨0⟩, ⟨1⟩, ⟨2⟩])) ∧
      ∃ ty, c.answerQuery (.expr ⟨3⟩) .idle = (.ok ty, .idle) ∧
        c.eval (c.typeAtOffset 4) .idle = (.ok (some (⟨3⟩, ty)), .idle) := by
  intro t c
  have ht := SyntaxTree.spacedBlock_builtTidily.built
  have hn := SyntaxTree.spacedBlock_builtTidily.nested
  have h := offset_query_innermost ht
  have hid : t.nodeAtOffset? NodeKind.isExpr 4 = some ⟨3⟩ := by decide
  have hcovers : t.covers NodeKind.isExpr 4 ⟨5⟩ = true := by decide
  have hx := h.2.1 hn _ _ _ hid ⟨5⟩ hcovers
  have hid' : t.nodeAtOffset? NodeKind.isTypeable 4 = some ⟨3⟩ := by decide
  have hk : t.kind? ⟨3⟩ = some (.expr (.tuple [⟨0⟩, ⟨1⟩, ⟨2⟩])) := rfl
  have htype := h.2.2 .none .standard .structural 4
  exact ⟨ht, hn, SyntaxTree.spacedBlock_apart, .none, hid, hcovers, hx.1,
    hx.2 SyntaxTree.spacedBlock_apart, hid', hk, (htype.2 ⟨3⟩ _ hid' hk).2 .none⟩

end TypeDerivation
