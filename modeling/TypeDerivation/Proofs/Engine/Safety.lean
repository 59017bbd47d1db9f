import TypeDerivation.Proofs.Engine.Termination

namespace TypeDerivation

namespace Context

open TypeDerivation.Derivation

/-- Working `d` out leads to an answer, and the guards are as before. -/
def Returns {α : Type} (c : Context) (d : Derivation α) : Prop :=
  ∃ a, c.eval d .idle = (.ok a, .idle)

/-- Whatever is read on the way from a node to another one is in the tree. -/
structure Closed (c : Context) : Prop where
  ancestor : ∀ {id above : NodeId}, above ∈ c.tree.ancestors id → above.index < c.tree.size
  child : ∀ {id child : NodeId}, child ∈ c.tree.children id → child.index < c.tree.size
  reference : ∀ {id decl : NodeId}, c.resolver.reference c.tree id = some decl →
    decl.index < c.tree.size
  path : ∀ {p : SymbolPath} {scope decl : NodeId}, c.resolver.path c.tree p scope = some decl →
    decl.index < c.tree.size

variable {c : Context} {α : Type} {d : Derivation α} {q : Query} {r : Request}

theorem closed_of_ordered (ht : c.tree.Ordered) (hR : c.resolver.Within c.tree) : c.Closed := by
  refine ⟨ht.lt_of_mem_ancestors, ?_, hR.reference, hR.path⟩
  intro id child hc
  rw [SyntaxTree.children] at hc
  cases hk : c.tree.kind? id with
  | none =>
    rw [hk] at hc
    cases hc
  | some kind =>
    rw [hk] at hc
    exact ht.child_lt_size hk hc

theorem returns_of_meets {Q : α → Prop} (ht : c.tree.Ordered) (hR : c.resolver.Within c.tree)
    (hd : d.Meets (Request.Proper c.tree) (Ty.Formed c.tree) Q) : c.Returns d := by
  obtain ⟨a, ha, -⟩ := outcome_replies_ok ht hR c.settings.maxDepth hd (Nat.le_refl _)
  refine ⟨a, ?_⟩
  rw [eval, run_eq_replies, ha]

theorem returns_queried (ht : c.tree.Ordered) (hR : c.resolver.Within c.tree)
    (hq : q.request? = some r) (hr : r.Proper c.tree) : c.Returns (c.queried q) := by
  rw [queried_of_proper hq hr]
  exact returns_of_meets ht hR (.request hr)

end Context

/-- No query about a node and no query at an offset fails, however odd the tree is and whatever
the table says about it. Only an item asked for where there is none is reported as such. -/
theorem queries_return {t : SyntaxTree} (ht : t.Built) {R : Resolver} (hR : R.Tabled t)
    (s : Settings) (i : Inference) :
    let c : Context := ⟨t, R, s, i⟩
    (∀ id kind, t.kind? id = some kind →
      c.Returns (c.queried (.expr id)) ∧ c.Returns (c.queried (.entity id)) ∧
      c.Returns (c.queried (.typeExpr id)) ∧ c.Returns (c.shape id) ∧
      if kind.isItem then c.Returns (c.queried (.item id))
      else c.answerQuery (.item id) .idle = (.error (.notAnItem id kind.category), .idle)) ∧
    (∀ offset, c.Returns (c.typeAtOffset offset)) ∧ c.Closed := by
  intro c
  have ho : c.tree.Ordered := ht.ordered
  have hW : c.resolver.Within c.tree := hR.within ho
  refine ⟨?_, ?_, Context.closed_of_ordered ho hW⟩
  · intro id kind hk
    have hid : id.index < t.size := SyntaxTree.lt_of_kind? hk
    refine ⟨?_, ?_, ?_, ?_, ?_⟩
    · exact Context.returns_queried ho hW (r := .expr id) rfl hid
    · exact Context.returns_queried ho hW (r := .entity id) rfl hid
    · exact Context.returns_queried ho hW (r := .typeExpr id) rfl hid
    · exact Context.returns_of_meets ho hW (Context.meets_shape ho hid)
    · by_cases hi : kind.isItem = true
      · rw [if_pos hi]
        cases kind with
        | item x => exact Context.returns_queried ho hW (r := .item id) rfl ⟨x, hk⟩
        | _ => cases hi
      · rw [if_neg hi]
        have hstop := Context.itemType_eq_stop (c := c) hk (by simpa using hi)
        rw [Context.answerQuery, Context.queried, hstop, Context.eval_stop]
  · intro offset
    exact Context.returns_of_meets ho hW (Context.meets_typeAtOffset offset)

/-- A tuple pattern around a literal, called as a function that is in turn a tuple's entry. -/
def misshapen : SyntaxTree :=
  .afterSteps .empty [.node (.expr .unit), .node (.pat (.tuple [⟨0⟩])),
    .node (.expr (.call ⟨1⟩ [])), .node (.typeExpr (.tuple [⟨2⟩]))]

theorem misshapen_built : misshapen.Built := ⟨_, rfl⟩

theorem queries_return_misshapen :
    misshapen.Built ∧ (Resolver.none).Tabled misshapen ∧
      misshapen.kind? ⟨2⟩ = some (.expr (.call ⟨1⟩ [])) ∧
      let c : Context := ⟨misshapen, .none, .standard, .structural⟩
      c.Returns (c.queried (.expr ⟨2⟩)) ∧ c.Returns (c.queried (.typeExpr ⟨2⟩)) ∧
        c.answerQuery (.item ⟨2⟩) .idle = (.error (.notAnItem ⟨2⟩ "expression"), .idle) ∧
        c.Returns (c.typeAtOffset 0) :=
  have hk : misshapen.kind? ⟨2⟩ = some (.expr (.call ⟨1⟩ [])) := rfl
  have h := queries_return misshapen_built (.none) .standard .structural
  have h₂ := h.1 ⟨2⟩ _ hk
  ⟨misshapen_built, .none, hk, h₂.1, h₂.2.2.1, h₂.2.2.2.2, h.2.1 0⟩

end TypeDerivation
