import TypeDerivation.Proofs.Engine.Query
import TypeDerivation.Proofs.Engine.Replies

/-!
Every engine with the guard against running in circles comes to an end. The declarations worked on
are distinct nodes, and between two of them requests lead down the tree; so the number of requests
that can be open inside each other is bounded in the size of the tree.
-/

namespace TypeDerivation

/-- How many requests are open inside each other at most in a tree of `n` nodes. -/
def openBound (n : Nat) : Nat := (n + 1) * (2 * n + 1)

namespace Guards

/-- The declarations worked on are nodes of the tree, none of them twice. -/
structure Fits (t : SyntaxTree) (g : Guards) : Prop where
  nodup : g.active.Nodup
  lt : ∀ d ∈ g.active, d.index < t.size

theorem fits_idle (t : SyntaxTree) : idle.Fits t := ⟨List.nodup_nil, by simp [idle]⟩

variable {t : SyntaxTree} {g g' : Guards} {limit : Option Nat} {r r' : Request}

theorem Fits.length_le (h : g.Fits t) : g.active.length ≤ t.size := by
  have hsub : g.active ⊆ t.ids := fun d hd => SyntaxTree.mem_ids_iff.mpr (h.lt d hd)
  simpa [SyntaxTree.ids] using h.nodup.length_le_of_subset hsub

theorem Fits.enter (h : g.Fits t) (hr : r.Proper t) (he : g.enter limit r = some g') :
    g'.Fits t := by
  obtain ⟨-, hnone, hsome⟩ := enter_eq_some he
  cases hd : r.decl? with
  | none =>
    have ha := hnone hd
    exact ⟨ha ▸ h.nodup, fun d hmem => h.lt d (ha ▸ hmem)⟩
  | some decl =>
    obtain ⟨hfresh, ha⟩ := hsome decl hd
    refine ⟨ha ▸ List.nodup_cons.mpr ⟨hfresh, h.nodup⟩, ?_⟩
    intro d hmem
    rcases List.mem_cons.mp (ha ▸ hmem) with rfl | hmem
    · exact hr.lt d hd
    · exact h.lt d hmem

/-- A bound on how many requests can be open inside a request, itself included. -/
def need (t : SyntaxTree) (g : Guards) (r : Request) : Nat :=
  (t.size - g.active.length) * (2 * t.size + 1) + r.height t.size

theorem one_le_need : 1 ≤ g.need t r := by
  have := r.one_le_height t.size
  rw [need]
  omega

theorem need_le (hr : r.Proper t) : g.need t r ≤ openBound t.size := by
  have := hr.height_le
  have := Nat.mul_le_mul_right (2 * t.size + 1) (Nat.sub_le t.size g.active.length)
  rw [need, openBound, Nat.add_mul t.size 1, Nat.one_mul]
  omega

theorem need_lt (h : g.Fits t) (hr : r.Proper t) (he : g.enter limit r = some g')
    (hf : r.Follows t r') : g'.need t r' < g.need t r := by
  obtain ⟨-, hnone, hsome⟩ := enter_eq_some he
  cases hd : r.decl? with
  | none =>
    have := hf.2 hd
    simp only [need, hnone hd]
    omega
  | some decl =>
    have hlen := (h.enter hr he).length_le
    have hle := hf.1.height_le
    have := r.one_le_height t.size
    -- the height may start again from the top, but there is one declaration fewer to work on
    simp only [need, (hsome decl hd).2, List.length_cons] at hlen ⊢
    obtain ⟨m, hm⟩ : ∃ m, t.size - g.active.length = m + 1 :=
      ⟨t.size - g.active.length - 1, by omega⟩
    rw [hm, show t.size - (g.active.length + 1) = m by omega, Nat.add_mul m 1, Nat.one_mul]
    omega

theorem one_lt_need (h : g.Fits t) (hr : r.Proper t) (he : g.enter limit r = some g') :
    1 < g.need t r := by
  cases hd : r.decl? with
  | none =>
    rw [need]
    cases r with
    | expr id | typeExpr id =>
      simp only [Request.height]
      omega
    | entity id | item id => cases hd
  | some decl =>
    have hf : r.Follows t (.entity decl) :=
      Request.follows_of_decl? (by simp [hd]) (hr.lt decl hd)
    exact Nat.lt_of_le_of_lt one_le_need (need_lt h hr he hf)

end Guards

namespace Context

open TypeDerivation.Derivation

variable {c : Context} {α : Type} {d : Derivation α} {g : Guards} {r r' : Request}
  {fuel : Nat} {limit : Option Nat}

section

variable (ht : c.tree.Ordered) (hR : c.resolver.Within c.tree)
include ht hR

theorem formed_of_replies {policy : Policy} {ty : Ty} (hr : r.Proper c.tree)
    (h : c.replies policy fuel g r = .ok ty) : ty.Formed c.tree := by
  induction fuel generalizing g r ty with
  | zero =>
    rcases replies_eq_ok h with ⟨-, rfl⟩ | ⟨g', n, -, hn, -⟩
    · exact .unknown
    · cases hn
  | succ fuel ih =>
    rcases replies_eq_ok h with ⟨-, rfl⟩ | ⟨g', n, -, hn, h⟩
    · exact .unknown
    · cases hn
      exact (meets_rule ht hR hr).of_outcome (fun r' ty hr' he => ih hr'.1 he) h

theorem follows_of_asks {policy : Policy} (hr : r.Proper c.tree)
    (ha : (c.rule r).Asks (c.replies policy fuel g) r') : r.Follows c.tree r' := by
  apply (meets_rule ht hR hr).of_asks ?_ ha
  intro r ty hr he
  exact formed_of_replies ht hR hr.1 he

theorem Underway.proper {policy : Policy} {Q : α → Prop}
    (hd : d.Meets (Request.Proper c.tree) (Ty.Formed c.tree) Q)
    (h : c.Underway policy fuel d g r) : r.Proper c.tree := by
  induction h with
  | outer ha => exact hd.of_asks (fun r ty hr he => formed_of_replies ht hR hr he) ha
  | inner _ _ ha ih => exact (follows_of_asks ht hR ih ha).1

theorem replies_ok (limit : Option Nat) (fuel : Nat) (hg : g.Fits c.tree) (hr : r.Proper c.tree)
    (hn : g.need c.tree r ≤ fuel + 1) :
    ∃ ty, c.replies (Guards.enter limit) fuel g r = .ok ty := by
  induction fuel generalizing g r with
  | zero =>
    cases he : g.enter limit r with
    | none => exact ⟨.unknown, replies_of_refused he 0⟩
    | some g' =>
      have := Guards.one_lt_need hg hr he
      omega
  | succ fuel ih =>
    cases he : g.enter limit r with
    | none => exact ⟨.unknown, replies_of_refused he _⟩
    | some g' =>
      rw [replies_of_admitted he]
      obtain ⟨ty, hty, -⟩ := (meets_rule ht hR hr).outcome fun r' hr' => by
        have := Guards.need_lt hg hr he hr'
        obtain ⟨ty, hty⟩ := ih (hg.enter hr he) hr'.1 (by omega)
        exact ⟨ty, hty, formed_of_replies ht hR hr'.1 hty⟩
      exact ⟨ty, hty⟩

theorem replies_step (hg : g.Fits c.tree) (hr : r.Proper c.tree) {g' : Guards}
    (he : g.enter limit r = some g') (hn : g.need c.tree r ≤ fuel) :
    c.replies (Guards.enter limit) fuel g r =
      (c.rule r).outcome (c.replies (Guards.enter limit) fuel g') := by
  obtain ⟨ty, hty⟩ := replies_ok ht hR limit fuel hg hr (by omega)
  exact replies_unfold he (by simp [hty])

omit ht hR in
theorem openBound_le_reach : openBound c.tree.size ≤ c.reach := by
  rw [openBound, reach]
  exact Nat.mul_le_mul_left _ (by omega)

/-- What holds of every request under way: the guards fit, and as many requests are open around it
as leave room for what it needs. -/
theorem Underway.fits {Q : α → Prop}
    (hd : d.Meets (Request.Proper c.tree) (Ty.Formed c.tree) Q)
    (h : c.Underway (Guards.enter limit) fuel d g r) :
    g.Fits c.tree ∧ g.depth + g.need c.tree r ≤ openBound c.tree.size := by
  have hr := h.proper ht hR hd
  induction h with
  | outer ha =>
    refine ⟨Guards.fits_idle _, ?_⟩
    have := Guards.need_le (g := .idle) hr
    simpa [Guards.idle] using this
  | @inner g g' r r' hu he ha ih =>
    have hproper := hu.proper ht hR hd
    obtain ⟨hg, hn⟩ := ih hproper
    refine ⟨hg.enter hproper he, ?_⟩
    have := Guards.need_lt hg hproper he (follows_of_asks ht hR hproper ha)
    have := (Guards.enter_eq_some he).1
    omega

theorem outcome_replies_ok (limit : Option Nat) {Q : α → Prop}
    (hd : d.Meets (Request.Proper c.tree) (Ty.Formed c.tree) Q) (hf : c.reach ≤ fuel) :
    ∃ a, d.outcome (c.replies (Guards.enter limit) fuel .idle) = .ok a ∧ Q a := by
  apply hd.outcome
  intro r hr
  have hn := Guards.need_le (g := .idle) hr
  have := c.openBound_le_reach
  obtain ⟨ty, hty⟩ := replies_ok ht hR limit fuel (Guards.fits_idle _) hr (by omega)
  exact ⟨ty, hty, formed_of_replies ht hR hr hty⟩

end

/-- Where fuel does not run out, more of it does not change the answer. -/
theorem run_eq_eval (h : (c.eval d g).1 ≠ .error .exhausted) (hf : c.reach ≤ fuel) :
    d.run (c.answer fuel) g = c.eval d g := by
  rw [eval, run_eq_replies] at h
  rw [eval, run_eq_replies, run_eq_replies,
    outcome_stable h fun r hr => replies_stable hr hf]

/-- Whatever fuel an engine starts with, fewer than `bound` requests are open around any other
while it works `d` out; and `reach` is fuel enough, so that more does not change the answer. -/
structure Settles (c : Context) (bound : Nat) (d : Derivation α) : Prop where
  depth_lt : ∀ {fuel : Nat} {g : Guards} {r : Request},
    c.Underway (Guards.enter c.settings.maxDepth) fuel d g r → g.depth < bound
  answered : ∀ fuel, c.reach ≤ fuel → d.run (c.answer fuel) .idle = c.eval d .idle
  ne_exhausted : (c.eval d .idle).1 ≠ .error .exhausted

theorem settles_of_meets {Q : α → Prop} (ht : c.tree.Ordered)
    (hR : c.resolver.Within c.tree) (hd : d.Meets (Request.Proper c.tree) (Ty.Formed c.tree) Q) :
    c.Settles (openBound c.tree.size) d := by
  have hne : (c.eval d .idle).1 ≠ .error .exhausted := by
    obtain ⟨a, ha, -⟩ := outcome_replies_ok ht hR c.settings.maxDepth hd (Nat.le_refl _)
    rw [eval, run_eq_replies, ha]
    simp
  refine ⟨?_, fun fuel => run_eq_eval hne, hne⟩
  intro fuel g r h
  have := (h.fits ht hR hd).2
  have := Guards.one_le_need (t := c.tree) (g := g) (r := r)
  omega

theorem settles_stop {fault : Fault} (h : fault ≠ .exhausted) (bound : Nat) :
    c.Settles bound (stop fault : Derivation α) := by
  refine ⟨?_, fun _ _ => rfl, by simpa [eval, run] using h⟩
  intro fuel g r hu
  exfalso
  induction hu with
  | outer ha => cases ha
  | inner _ _ _ ih => exact ih

theorem settles_queried {q : Query} (ht : c.tree.Ordered) (hR : c.resolver.Within c.tree)
    (hq : q.request? = some r) (hid : r.node.index < c.tree.size) :
    c.Settles (openBound c.tree.size) (c.queried q) := by
  rcases queried_cases hq hid with hr | ⟨id, k, -, -, -, hstop⟩
  · rw [queried_of_proper hq hr]
    exact settles_of_meets ht hR (.request hr)
  · rw [hstop]
    exact settles_stop (by simp) _

/-- A query about a node has a well-formed answer, or it asks for an item and the node is none. -/
theorem answerQuery_cases (ht : c.tree.Ordered)
    (hR : c.resolver.Within c.tree) {q : Query} (hq : q.request? = some r)
    (hid : r.node.index < c.tree.size) :
    (∃ ty, c.answerQuery q .idle = (.ok ty, .idle) ∧ ty.Formed c.tree) ∨
      ∃ id category, id.index < c.tree.size ∧
        c.answerQuery q .idle = (.error (.notAnItem id category), .idle) := by
  rcases queried_cases hq hid with hr | ⟨id, k, -, hk, -, hstop⟩
  · obtain ⟨ty, hty, hformed⟩ := outcome_replies_ok ht hR c.settings.maxDepth
      (Meets.request hr) (Nat.le_refl c.reach)
    refine .inl ⟨ty, ?_, hformed⟩
    rw [answerQuery, queried_of_proper hq hr, eval, run_eq_replies, hty]
  · refine .inr ⟨id, k.category, SyntaxTree.lt_of_kind? hk, ?_⟩
    rw [answerQuery, hstop, eval_stop]

end Context

/-- Without a limit, every query about a node and every query at an offset comes to an end, however
the table leads around in circles, and so does the look-up of a path. -/
theorem queries_settle {t : SyntaxTree} (ht : t.Built) {names : ResolvedNames}
    (hn : names.Within t) (s : Settings) (i : Inference) :
    let c : Context := ⟨t, names.resolver, { s with maxDepth := none }, i⟩
    (∀ q r, q.request? = some r → r.node.index < t.size →
      c.Settles (openBound t.size) (c.queried q)) ∧
    (∀ offset, c.Settles (openBound t.size) (c.typeAtOffset offset)) ∧
    ∀ depth p scope, names.lookUp t (depth + 2) p scope = some (names.path? t p scope) := by
  have ho := ht.ordered
  have hR := hn.resolver ho
  intro c
  refine ⟨?_, ?_, names.lookUp_eq t⟩
  · intro q r hq hid
    exact Context.settles_queried ho hR hq hid
  · intro offset
    exact Context.settles_of_meets ho hR (Context.meets_typeAtOffset offset)

/-- An alias of itself. -/
def selfAlias : SyntaxTree :=
  .afterSteps .empty [.shorthand (.pathTypeExpr "A"), .node (.item (.typeAlias ⟨7⟩ [] (some ⟨0⟩)))]

def selfAliasNames : ResolvedNames := ResolvedNames.empty.bindPath "A" ⟨1⟩

theorem selfAlias_built : selfAlias.Built := ⟨_, rfl⟩

theorem size_selfAlias : selfAlias.size = 2 := rfl

theorem selfAliasNames_within : selfAliasNames.Within selfAlias :=
  (ResolvedNames.within_empty _).bindPath _ (by rw [size_selfAlias]; decide)

theorem queries_settle_selfAlias :
    selfAlias.Built ∧ selfAliasNames.Within selfAlias ∧
      let c : Context := ⟨selfAlias, selfAliasNames.resolver, .standard, .structural⟩
      c.Settles (openBound 2) (c.queried (.entity ⟨1⟩)) ∧
        c.Settles (openBound 2) (c.typeAtOffset 0) :=
  have h := queries_settle selfAlias_built selfAliasNames_within .standard .structural
  ⟨selfAlias_built, selfAliasNames_within,
    h.1 (.entity ⟨1⟩) (.entity ⟨1⟩) rfl (by rw [size_selfAlias]; decide), h.2.1 0⟩

end TypeDerivation
