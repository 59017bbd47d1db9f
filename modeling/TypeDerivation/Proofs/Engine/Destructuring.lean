import TypeDerivation.Proofs.Derivation.Descent
import TypeDerivation.Proofs.Engine.Answers

/-!
What an engine answers for a binding: the type that a reading of the pattern around it gives.
-/

namespace TypeDerivation

namespace Context

open TypeDerivation.Derivation

variable {c : Context} {id : NodeId} {k : Nat}

theorem rule_of_binding {name : Name} {byRef mutable : Bool} {sub : Option NodeId}
    (hk : c.tree.kind? id = some (.pat (.binding name byRef mutable sub))) :
    c.rule (.entity id) = c.bindingType id := by
  rw [rule, entityRule, kind_eq_done hk]
  rfl

section

variable (ht : c.tree.Ordered) (hR : c.resolver.Within c.tree)
include ht hR

theorem eval_entity (hmax : c.settings.maxDepth = none) (hid : id.index < c.tree.size) :
    ∃ ty, c.eval (.request (.entity id)) .idle = (.ok ty, .idle) ∧
      (c.rule (.entity id)).outcome (c.answers ⟨1, [id]⟩) = .ok ty := by
  have hr : (Request.entity id).Proper c.tree := hid
  obtain ⟨ty, hty⟩ := answers_ok ht hR (Guards.fits_idle _) hr
  refine ⟨ty, by rw [eval_request, hty], ?_⟩
  rwa [answers_entity ht, if_neg (by simp [hmax])] at hty

/-- Where the rules for a declaration come to an end by themselves, it does not matter whether the
replies are given in the meantime or by a fresh engine. -/
theorem outcome_rule_of_uncut (hmax : c.settings.maxDepth = none) (hid : id.index < c.tree.size)
    (hcut : c.Uncut k (.request (.entity id))) :
    (c.rule (.entity id)).outcome (c.answers .idle) =
      (c.rule (.entity id)).outcome (c.answers ⟨1, [id]⟩) := by
  have hr : (Request.entity id).Proper c.tree := hid
  obtain ⟨ty, hty⟩ := (uncut_iff ht hR (.request hr)).mp hcut
  rw [outcome_request] at hty
  obtain ⟨n, -, hlow, hmin⟩ := exists_lowest_derived hty
  have hfits : Guards.Fits c.tree ⟨1, [id]⟩ := ⟨List.nodup_singleton id, by simpa using hid⟩
  have hmeantime : (c.rule (.entity id)).outcome (c.answers ⟨1, [id]⟩) = .ok ty := by
    apply outcome_of_derived ht hR hr hlow
    intro r' ty' hr' hty'
    apply answers_of_derived ht hmax hfits hr' hty'
    intro decl hmem ty'' hty''
    cases List.mem_singleton.mp hmem
    exact hmin ty'' hty''
  have hfresh : (c.rule (.entity id)).outcome (c.answers .idle) = .ok ty := by
    apply outcome_of_derived ht hR hr hlow
    intro r' ty' hr' hty'
    exact answers_of_derives ht hmax hr' ⟨n, hty'⟩
  rw [hmeantime, hfresh]

end

end Context

/-- Without a limit, a fresh engine answers for a binding exactly the type that a reading of the
outermost pattern around it gives, by what the engine replies in the meantime; and by what fresh
engines reply, if the binding can be worked out without a guard. -/
theorem binding_read_from_top {t : SyntaxTree} (ht : t.Built) {R : Resolver} (hR : R.Tabled t)
    (s : Settings) {id top : NodeId} {name : Name} {byRef mutable : Bool} {sub : Option NodeId}
    (hk : t.kind? id = some (.pat (.binding name byRef mutable sub))) (htop : t.Outermost top id)
    (hn : ∀ pat, t.Encloses pat id → (t.children pat).Nodup) :
    let c : Context := ⟨t, R, { s with maxDepth := none }, .structural⟩
    ∃ ty, c.answerQuery (.entity id) .idle = (.ok ty, .idle) ∧
      (∀ ty', c.Gives (c.answers ⟨1, [id]⟩) id top ty' ↔ ty' = ty) ∧
      ∀ k, c.Uncut k (.request (.entity id)) →
        ∀ ty', c.Gives (c.answers .idle) id top ty' ↔ ty' = ty := by
  intro c
  have ho : c.tree.Ordered := ht.ordered
  have ha : c.tree.Agreeing := ht.agreeing
  have hW : c.resolver.Within c.tree := hR.within ho
  have hid : id.index < c.tree.size := SyntaxTree.lt_of_kind? hk
  obtain ⟨ty, heval, hty⟩ := Context.eval_entity ho hW rfl hid
  have hrule : c.rule (.entity id) = c.bindingType id := Context.rule_of_binding hk
  refine ⟨ty, heval, ?_, ?_⟩
  · intro ty'
    rw [hrule] at hty
    exact Context.gives_iff_of_bindingType ho ha rfl hk htop hn hty
  · intro k hcut ty'
    rw [← Context.outcome_rule_of_uncut ho hW rfl hid hcut, hrule] at hty
    exact Context.gives_iff_of_bindingType ho ha rfl hk htop hn hty

/-- A tuple pattern with a name and a blank, for which a mutable reference to a pair is written. -/
def borrowedPair : SyntaxTree :=
  .afterSteps .empty [.node (.typeExpr (.tuple [])), .node (.typeExpr .infer),
    .node (.typeExpr (.tuple [⟨0⟩, ⟨1⟩])), .node (.typeExpr (.ref (some ⟨2⟩) true)),
    .node (.pat (.binding ⟨7⟩ false false none)), .node (.pat .wild),
    .node (.pat (.tuple [⟨4⟩, ⟨5⟩])), .node (.stmt (.bind (some ⟨6⟩) (some ⟨3⟩) none))]

theorem borrowedPair_built : borrowedPair.Built := ⟨_, rfl⟩

theorem inside_borrowedPair {child pat : NodeId} (h : borrowedPair.Inside child pat)
    (hc : child = ⟨4⟩ ∨ child = ⟨6⟩) : child = ⟨4⟩ ∧ pat = ⟨6⟩ := by
  have hp := h.parent? borrowedPair_built.agreeing
  rcases hc with rfl | rfl
  · have hparent : borrowedPair.parent? ⟨4⟩ = some ⟨6⟩ := rfl
    exact ⟨rfl, Option.some.inj (hp.symm.trans hparent)⟩
  · have hparent : borrowedPair.parent? ⟨6⟩ = some ⟨7⟩ := rfl
    cases Option.some.inj (hp.symm.trans hparent)
    cases h.1

theorem outermost_borrowedPair : borrowedPair.Outermost ⟨6⟩ ⟨4⟩ := by
  refine ⟨.single ⟨rfl, by decide⟩, ?_⟩
  intro pat h
  cases (inside_borrowedPair h (.inr rfl)).1

theorem nodup_borrowedPair {pat : NodeId} (h : borrowedPair.Encloses pat ⟨4⟩) :
    (borrowedPair.children pat).Nodup := by
  have hpat : pat = ⟨4⟩ ∨ pat = ⟨6⟩ := by
    induction h with
    | refl => exact .inl rfl
    | tail _ hin ih => exact .inr (inside_borrowedPair hin ih).2
  rcases hpat with rfl | rfl <;> decide

def borrowedPairContext : Context := ⟨borrowedPair, .none, .standard, .structural⟩

theorem gives_borrowedPair {reply : Replies}
    (hreply : reply (.typeExpr ⟨3⟩) = .ok (.ref (.tuple [.unit, .unknown]) true)) :
    borrowedPairContext.Gives reply ⟨4⟩ ⟨6⟩ (.ref .unit true) := by
  have howner : borrowedPair.kind? ⟨7⟩ = some (.stmt (.bind (some ⟨6⟩) (some ⟨3⟩) none)) := rfl
  have htuple : borrowedPair.kind? ⟨6⟩ = some (.pat (.tuple [⟨4⟩, ⟨5⟩])) := rfl
  have hreach : borrowedPairContext.Reaches reply ⟨6⟩ (.ref (.tuple [.unit, .unknown]) true) ⟨4⟩
      ⟨.unit, [true]⟩ :=
    Context.Reaches.top.step (.tuple (i := 0) htuple rfl rfl rfl rfl)
  exact .bound (.annotated howner) (by rw [Origin.type, Derivation.denotedType,
    Derivation.outcome_request, hreply]) hreach rfl

theorem binding_read_from_top_borrowedPair :
    let c := borrowedPairContext
    let ty : Ty := .ref .unit true
    borrowedPair.Built ∧ Resolver.none.Tabled borrowedPair ∧
      borrowedPair.kind? ⟨4⟩ = some (.pat (.binding ⟨7⟩ false false none)) ∧
      borrowedPair.Outermost ⟨6⟩ ⟨4⟩ ∧
      (∀ pat, borrowedPair.Encloses pat ⟨4⟩ → (borrowedPair.children pat).Nodup) ∧
      c.answerQuery (.entity ⟨4⟩) .idle = (.ok ty, .idle) ∧
      c.Uncut 5 (.request (.entity ⟨4⟩)) ∧ ∀ ty', c.Gives (c.answers .idle) ⟨4⟩ ⟨6⟩ ty' ↔ ty' = ty := by
  intro c ty
  have hk : borrowedPair.kind? ⟨4⟩ = some (.pat (.binding ⟨7⟩ false false none)) := rfl
  have hn : ∀ pat, borrowedPair.Encloses pat ⟨4⟩ → (borrowedPair.children pat).Nodup :=
    fun _ => nodup_borrowedPair
  have hcut : c.Uncut 5 (.request (.entity ⟨4⟩)) := Context.uncut_of_derived (a := ty) rfl
  obtain ⟨ty', hanswer, hgives, hfresh⟩ :=
    binding_read_from_top borrowedPair_built .none .standard hk outermost_borrowedPair hn
  have hty : ty = ty' := (hgives ty).mp (gives_borrowedPair rfl)
  subst hty
  exact ⟨borrowedPair_built, .none, hk, outermost_borrowedPair, hn, hanswer, hcut, hfresh 5 hcut⟩

end TypeDerivation
