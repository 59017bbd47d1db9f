import TypeDerivation.Proofs.Derivation.Comparison.Rule
import TypeDerivation.Proofs.Engine.Isolation
import TypeDerivation.Proofs.Engine.Unguarded

/-!
What the guard on declarations does to an answer. Where the rules come to an end by themselves it
does nothing; elsewhere it puts the unknown type in the place of something.
-/

namespace TypeDerivation

namespace Context

open TypeDerivation.Derivation

variable {c : Context} {policy : Policy} {g g' : Guards} {r : Request} {ty a b : Ty}
  {k m fuel fuel' : Nat}

theorem unknown_of_unresolved {id : NodeId} {p : SymbolPath}
    (hk : c.tree.kind? id = some (.expr (.path p))) (hd : c.declOf? id = none)
    (h : c.replies policy fuel g (.expr id) = .ok ty) : ty = .unknown := by
  rcases replies_eq_ok h with ⟨-, rfl⟩ | ⟨g', n, -, -, h⟩
  · rfl
  · have hrule : c.rule (.expr id) = .done .unknown := by
      rw [rule, exprRule, kind_eq_done hk]
      change c.pathType id = _
      rw [pathType, hd]
    rw [hrule] at h
    cases h
    rfl

/-- Up to the depth `k` whatever the guard lets through is let through without it, too. -/
theorem blurs_unguarded (ha : c.replies (Guards.enter none) fuel g r = .ok a)
    (hb : c.replies (Guards.deepen (some k)) fuel' g' r = .ok b) (hle : fuel + g.depth ≤ k)
    (hg : g'.depth = g.depth) : a.Blurs b := by
  induction fuel generalizing fuel' g g' r a b with
  | zero =>
    rcases replies_eq_ok ha with ⟨-, rfl⟩ | ⟨g₁, n, -, hn, -⟩
    · exact .unknown b
    · cases hn
  | succ fuel ih =>
    rcases replies_eq_ok ha with ⟨-, rfl⟩ | ⟨g₁, n, he, hn, ha⟩
    · exact .unknown b
    · cases hn
      have hdepth := (Guards.enter_eq_some he).1
      have hlt : g'.depth < k := by omega
      rcases replies_eq_ok hb with ⟨hp, -⟩ | ⟨g₂, n', hp, -, hb⟩
      · rw [Guards.deepen_of_lt hlt] at hp
        cases hp
      · have hdepth' := Guards.deepen_eq_some hp
        have himp : c.Improves c.resolver (c.replies (Guards.enter none) fuel g₁)
            (c.replies (Guards.deepen (some k)) n' g₂) := by
          refine ⟨Resolver.extends_refl _ _, ?_, unknown_of_unresolved⟩
          intro r' x y hx hy
          exact ih hx hy (by omega) (by rw [hdepth', hdepth, hg])
        exact himp.rule r a b ha hb

/-- What the rules derive is answered under the guard, as long as nothing that is worked on has a
derivation of that height. -/
theorem replies_of_derived (h : c.derived m r = .ok ty)
    (hfresh : ∀ decl ∈ g.active, ∀ ty', c.derived m (.entity decl) ≠ .ok ty') :
    c.replies (Guards.enter none) m g r = .ok ty := by
  induction m using Nat.strongRecOn generalizing g r ty with
  | ind m ih =>
    cases hd : r.decl? with
    | none =>
      cases m with
      | zero => cases h
      | succ m =>
        have he : g.enter none r = some { g with depth := g.depth + 1 } := by
          rw [Guards.enter_none_eq, hd]
        rw [replies_of_admitted he]
        refine outcome_ok_of_asks (fun r' ty' _ hty' => ?_) h
        apply ih m (Nat.lt_succ_self m) hty'
        intro decl hmem ty'' hty''
        exact hfresh decl hmem ty'' (derived_mono hty'' (Nat.le_succ m))
    | some decl =>
      -- in a lowest derivation for a declaration that declaration does not come up again
      obtain ⟨n, hn, hlow, hmin⟩ := exists_lowest_derived h
      have hreply : c.replies (Guards.enter none) (n + 1) g r = .ok ty := by
        rcases rule_eq_entity_or (c := c) hd with hentity | hblank
        · have hderived (k : Nat) : c.derived k r = c.derived k (.entity decl) := by
            cases k with
            | zero => rfl
            | succ k => rw [derived, derived, hentity]
          have hnot : decl ∉ g.active := fun hmem => hfresh decl hmem ty (hderived m ▸ h)
          have he : g.enter none r = some ⟨g.depth + 1, decl :: g.active⟩ := by
            rw [Guards.enter_none_eq, hd]
            exact if_neg hnot
          rw [replies_of_admitted he]
          refine outcome_ok_of_asks (fun r' ty' _ hty' => ?_) hlow
          apply ih n hn hty'
          intro x hmem ty'' hty''
          rcases List.mem_cons.mp hmem with rfl | hmem
          · exact hmin ty'' (hderived n ▸ hty'')
          · exact hfresh x hmem ty'' (derived_mono hty'' (Nat.le_of_lt hn))
        · rw [derived, hblank] at hlow
          cases hlow
          cases he : g.enter none r with
          | none => exact replies_of_refused he _
          | some g' => rw [replies_of_admitted he, hblank]; rfl
      rw [replies_stable (by simp [hreply]) hn, hreply]

theorem replies_reach_of_derived (ht : c.tree.Ordered) (hg : g.Fits c.tree) (hr : r.Proper c.tree)
    (h : c.derived m r = .ok ty)
    (hfresh : ∀ decl ∈ g.active, ∀ ty', c.derived m (.entity decl) ≠ .ok ty')
    (hf : c.reach ≤ fuel) : c.replies (Guards.enter none) fuel g r = .ok ty := by
  have hm := replies_of_derived h hfresh
  have hne : c.replies (Guards.enter none) fuel g r ≠ .error .exhausted :=
    replies_reach_ne_exhausted ht hg (fun _ => hr) hf
  have hmax := replies_stable hne (Nat.le_max_left fuel m)
  rw [replies_stable (by simp [hm]) (Nat.le_max_right fuel m)] at hmax
  rw [← hmax, hm]

variable (ht : c.tree.Ordered) (hR : c.resolver.Within c.tree)
include ht hR

theorem outcome_of_derived {reply : Replies} (hr : r.Proper c.tree)
    (h : c.derived (m + 1) r = .ok ty)
    (hreply : ∀ r' ty', r'.Proper c.tree → c.derived m r' = .ok ty' → reply r' = .ok ty') :
    (c.rule r).outcome reply = .ok ty := by
  apply outcome_ok_of_asks ?_ h
  intro r' ty' ha hr'
  have hfollows : r.Follows c.tree r' := by
    apply (meets_rule ht hR hr).of_asks ?_ ha
    intro r ty hr he
    exact formed_of_derived ht hR hr.1 he
  exact hreply r' ty' hfollows.1 hr'

theorem replies_of_uncut (hr : r.Proper c.tree) (hcut : c.Uncut k (.request r))
    (hf : c.reach ≤ fuel) :
    c.replies (Guards.enter none) fuel .idle r =
      c.replies (Guards.deepen (some k)) k .idle r := by
  obtain ⟨ty, hty⟩ := replies_deepen_ok ht hR k .idle hr (Nat.le_refl k)
  have hderived := outcome_derived_of_uncut ht hR (.request hr) hcut
  rw [outcome_request, outcome_request, hty] at hderived
  rw [replies_reach_of_derived ht (Guards.fits_idle _) hr hderived.symm ?_ hf, hty]
  intro decl hmem
  cases hmem

theorem blurs_evalUnguarded (hmax : c.settings.maxDepth = none) (hr : r.Proper c.tree)
    (hk : openBound c.tree.size ≤ k) :
    ∃ a b, c.eval (.request r) .idle = (.ok a, .idle) ∧
      c.evalUnguarded k (.request r) .idle = (.ok b, .idle) ∧ a.Blurs b := by
  have hn := Guards.need_le (g := .idle) hr
  obtain ⟨a, ha⟩ := replies_ok ht hR none (openBound c.tree.size) (Guards.fits_idle _) hr
    (by omega)
  obtain ⟨b, hb⟩ := replies_deepen_ok ht hR k .idle hr (Nat.le_refl k)
  refine ⟨a, b, ?_, ?_, ?_⟩
  · rw [eval, run_eq_replies, hmax, outcome_request,
      replies_stable (by rw [ha]; simp) openBound_le_reach, ha]
  · rw [evalUnguarded_eq_replies, outcome_request, hb]
  · exact blurs_unguarded ha hb (by simpa [Guards.idle] using hk) rfl

end Context

/-- Where the unguarded engine answers a query without being cut off, the guarded one gives the
same answer; and in every case its answer is a blur of that of the unguarded one, given that the
latter may go as deep as the guarded one can. -/
theorem cycle_guard_exact_and_sound {t : SyntaxTree} (ht : t.Built) {R : Resolver}
    (hR : R.Tabled t) (s : Settings) (i : Inference) :
    let c : Context := ⟨t, R, { s with maxDepth := none }, i⟩
    (∀ q r, q.request? = some r → r.node.index < t.size → ∀ k, c.Uncut k (c.queried q) →
      c.answerQuery q .idle = c.evalUnguarded k (c.queried q) .idle) ∧
    (∀ q r, q.request? = some r → r.Proper t → ∀ k, openBound t.size ≤ k →
      ∃ a b, c.answerQuery q .idle = (.ok a, .idle) ∧
        c.evalUnguarded k (c.queried q) .idle = (.ok b, .idle) ∧ a.Blurs b) ∧
    ∀ id kind, t.kind? id = some kind → kind.isItem = false → ∀ k,
      c.answerQuery (.item id) .idle = c.evalUnguarded k (c.queried (.item id)) .idle := by
  intro c
  have ho : c.tree.Ordered := ht.ordered
  have hW : c.resolver.Within c.tree := hR.within ho
  refine ⟨?_, ?_, ?_⟩
  · intro q r hq hid k hcut
    rcases Context.queried_cases (c := c) hq hid with hr | ⟨id, k, -, -, -, hstop⟩
    · rw [Context.queried_of_proper hq hr] at hcut
      rw [Context.answerQuery, Context.eval, Context.queried_of_proper hq hr,
        Context.run_eq_replies, Context.evalUnguarded_eq_replies, Derivation.outcome_request,
        Derivation.outcome_request, Context.replies_of_uncut ho hW hr hcut (Nat.le_refl _)]
    · rw [Context.answerQuery, hstop, Context.eval_stop, Context.evalUnguarded_stop]
  · intro q r hq hr k hk
    rw [Context.answerQuery, Context.queried_of_proper hq hr]
    exact Context.blurs_evalUnguarded ho hW rfl hr hk
  · intro id kind hkind hi k
    rw [Context.answerQuery, Context.queried, Context.itemType_eq_stop (c := c) hkind hi,
      Context.eval_stop, Context.evalUnguarded_stop]

def twoAliases : SyntaxTree :=
  .afterSteps .empty [.shorthand (.pathTypeExpr "A"), .node (.item (.typeAlias ⟨7⟩ [] (some ⟨0⟩))),
    .node (.typeExpr (.tuple [])), .node (.item (.typeAlias ⟨8⟩ [] (some ⟨2⟩)))]

theorem twoAliases_built : twoAliases.Built := ⟨_, rfl⟩

theorem size_twoAliases : twoAliases.size = 4 := rfl

theorem selfAliasNames_within_twoAliases : selfAliasNames.Within twoAliases :=
  (ResolvedNames.within_empty _).bindPath _ (by rw [size_twoAliases]; decide)

theorem uncut_twoAliases :
    let c : Context := ⟨twoAliases, selfAliasNames.resolver, .standard, .structural⟩
    c.Uncut 2 (c.queried (.entity ⟨3⟩)) :=
  Context.uncut_of_derived (a := .unit) rfl

theorem cycle_guard_exact_and_sound_twoAliases :
    twoAliases.Built ∧ selfAliasNames.resolver.Tabled twoAliases ∧
      let c : Context := ⟨twoAliases, selfAliasNames.resolver, .standard, .structural⟩
      c.Uncut 2 (c.queried (.entity ⟨3⟩)) ∧
        c.answerQuery (.entity ⟨3⟩) .idle =
          c.evalUnguarded 2 (c.queried (.entity ⟨3⟩)) .idle ∧
        (∃ a b, c.answerQuery (.entity ⟨1⟩) .idle = (.ok a, .idle) ∧
          c.evalUnguarded 45 (c.queried (.entity ⟨1⟩)) .idle = (.ok b, .idle) ∧ a.Blurs b) ∧
        c.answerQuery (.item ⟨2⟩) .idle = c.evalUnguarded 0 (c.queried (.item ⟨2⟩)) .idle :=
  have hR := Resolver.Tabled.names selfAliasNames_within_twoAliases
  have h := cycle_guard_exact_and_sound twoAliases_built hR .standard .structural
  ⟨twoAliases_built, hR, uncut_twoAliases,
    h.1 (.entity ⟨3⟩) (.entity ⟨3⟩) rfl (by rw [size_twoAliases]; decide) 2 uncut_twoAliases,
    h.2.1 (.entity ⟨1⟩) (.entity ⟨1⟩) rfl (by rw [Request.Proper, size_twoAliases]; decide) 45
      (by rw [size_twoAliases]; decide),
    h.2.2 ⟨2⟩ (.typeExpr (.tuple [])) rfl rfl 0⟩

end TypeDerivation
