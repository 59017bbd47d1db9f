import TypeDerivation.Proofs.Engine.CycleCut

/-!
What an engine replies to one request. Without a limit, how deep a request comes up does not matter,
so an expression or a type expression has what its rule makes of the replies under the same guards;
and what the rules derive is the answer, whatever else the table says.
-/

namespace TypeDerivation

namespace Context

open TypeDerivation.Derivation

/-- What the engine replies to a request that comes up under the guards. -/
def answers (c : Context) (g : Guards) : Replies := fun r => (c.eval (.request r) g).1

variable {c : Context} {g g' : Guards} {r : Request} {ty : Ty} {fuel n : Nat}

theorem answers_eq_replies (g : Guards) :
    c.answers g = c.replies (Guards.enter c.settings.maxDepth) c.reach g := by
  funext r
  rw [answers, eval, run_eq_replies, outcome_request]

theorem answers_eq (hmax : c.settings.maxDepth = none) (g : Guards) :
    c.answers g = c.replies (Guards.enter none) c.reach g := by
  rw [answers_eq_replies, hmax]

theorem eval_request (g : Guards) (r : Request) : c.eval (.request r) g = (c.answers g r, g) := by
  rw [answers, eval, run_eq_replies]

theorem answerQuery_eq {q : Query} (hq : c.queried q = .request r) (g : Guards) :
    c.answerQuery q g = (c.answers g r, g) := by
  rw [answerQuery, hq, eval_request]

theorem answers_ok (ht : c.tree.Ordered) (hR : c.resolver.Within c.tree) (hg : g.Fits c.tree)
    (hr : r.Proper c.tree) : ∃ ty, c.answers g r = .ok ty := by
  have hn : g.need c.tree r ≤ openBound c.tree.size := Guards.need_le hr
  have hreach := c.openBound_le_reach
  rw [answers_eq_replies]
  exact replies_ok ht hR c.settings.maxDepth c.reach hg hr (by omega)

theorem answers_step (ht : c.tree.Ordered) (hg : g.Fits c.tree)
    (hr : r.node.index < c.tree.size → r.Proper c.tree)
    (he : g.enter c.settings.maxDepth r = some g') :
    c.answers g r = (c.rule r).outcome (c.answers g') := by
  rw [answers_eq_replies, answers_eq_replies]
  exact replies_unfold he (replies_reach_ne_exhausted ht hg hr (Nat.le_refl _))

theorem answers_entity (ht : c.tree.Ordered) (id : NodeId) :
    c.answers .idle (.entity id) = if c.settings.maxDepth = some 0 then .ok .unknown
      else (c.rule (.entity id)).outcome (c.answers ⟨1, [id]⟩) := by
  have he := Guards.enter_idle_entity c.settings.maxDepth id
  by_cases hmax : c.settings.maxDepth = some 0
  · rw [if_pos hmax] at he ⊢
    rw [answers_eq_replies, replies_of_refused he]
  · rw [if_neg hmax] at he ⊢
    exact answers_step (r := .entity id) ht (Guards.fits_idle _) (fun hid => hid) he

theorem answers_entity_foreign (ht : c.tree.Ordered) (hmax : c.settings.maxDepth ≠ some 0)
    {id : NodeId} (h : c.tree.size ≤ id.index) :
    c.answers .idle (.entity id) = .error (.outside c.tree.size id.index) := by
  rw [answers_entity ht, if_neg hmax, rule_of_foreign h]
  rfl

theorem rule_of_expr {id : NodeId} {e : Expr} (hk : c.tree.kind? id = some (.expr e)) :
    c.rule (.expr id) = c.exprTypeOf id e := by
  rw [rule, exprRule, kind_eq_done hk]
  rfl

theorem pathShape_eq_path {p : SymbolPath}
    (hprim : ∀ n, p.singleName? = some n → c.settings.primitives.get? (c.tree.text n) = none) :
    c.pathShape p = .path p := by
  rw [pathShape]
  cases hn : p.singleName? with
  | none => rfl
  | some n => rw [Option.bind_some, hprim n hn]

theorem typeExprRule_of_kind? {id : NodeId} {e : TypeExpr}
    (hk : c.tree.kind? id = some (.typeExpr e)) :
    c.typeExprRule id = c.shapeType id (c.typeExprShape e) := by
  rw [typeExprRule, shape, kind_eq_done hk]
  rfl

/-- The rules alone lead to the type, by a derivation that comes to an end. -/
def Derives (c : Context) (r : Request) (ty : Ty) : Prop := ∃ height, c.derived height r = .ok ty

/-- Where the table names nodes of the tree only, a request has such a derivation exactly if some depth
is enough for the engine without a guard. -/
theorem exists_derives_iff (ht : c.tree.Ordered) (hR : c.resolver.Within c.tree)
    (hr : r.Proper c.tree) : (∃ ty, c.Derives r ty) ↔ ∃ k, c.Uncut k (.request r) := by
  have hcut (k : Nat) : c.Uncut k (.request r) ↔ ∃ ty, c.derived k r = .ok ty := by
    rw [uncut_iff ht hR (.request hr), outcome_request]
  simp only [hcut]
  exact exists_comm

theorem derives_iff : c.Derives r ty ↔ ∃ height, (c.rule r).outcome (c.derived height) = .ok ty := by
  constructor
  · rintro ⟨height, h⟩
    cases height with
    | zero => cases h
    | succ height => exact ⟨height, h⟩
  · rintro ⟨height, h⟩
    exact ⟨height + 1, h⟩

theorem Derives.lt (h : c.Derives r ty) : r.node.index < c.tree.size := by
  obtain ⟨height, h⟩ := derives_iff.mp h
  by_contra hforeign
  rw [rule_of_foreign (Nat.le_of_not_lt hforeign)] at h
  cases h

/-- Without a limit the guards differ in what is being worked on alone. -/
theorem replies_of_active_eq (h : g.active = g'.active) :
    c.replies (Guards.enter none) fuel g r = c.replies (Guards.enter none) fuel g' r := by
  -- Both sides open the same requests, and stay equal in what is worked on.
  induction fuel generalizing g g' r with
  | zero =>
    rw [replies, replies, Guards.enter_none_eq, Guards.enter_none_eq, h]
    cases r.decl? with
    | none => rfl
    | some decl => by_cases hmem : decl ∈ g'.active <;> simp [hmem]
  | succ fuel ih =>
    rw [replies, replies, Guards.enter_none_eq, Guards.enter_none_eq, h]
    cases r.decl? with
    | none => exact outcome_congr fun r' _ => ih rfl
    | some decl =>
      by_cases hmem : decl ∈ g'.active
      · simp [hmem]
      · simp only [hmem, if_false]
        exact outcome_congr fun r' _ => ih rfl

variable (ht : c.tree.Ordered) (hmax : c.settings.maxDepth = none)
include hmax

theorem answers_of_active_eq (h : g.active = g'.active) : c.answers g = c.answers g' := by
  rw [answers_eq hmax, answers_eq hmax]
  funext r
  exact replies_of_active_eq h

include ht

theorem answers_undeclared (hg : g.Fits c.tree) (hd : r.decl? = none) :
    c.answers g r = (c.rule r).outcome (c.answers g) := by
  have hproper (hid : r.node.index < c.tree.size) : r.Proper c.tree := by
    cases r with
    | expr _ | typeExpr _ => exact hid
    | entity _ | item _ => cases hd
  have he : g.enter c.settings.maxDepth r = some { g with depth := g.depth + 1 } := by
    rw [hmax, Guards.enter_none_eq, hd]
  rw [answers_step ht hg hproper he]
  exact congrArg (c.rule r).outcome (answers_of_active_eq hmax rfl)

theorem answers_expr (id : NodeId) :
    c.answers .idle (.expr id) = (c.exprRule id).outcome (c.answers .idle) :=
  answers_undeclared ht hmax (Guards.fits_idle _) rfl

theorem answers_typeExpr (id : NodeId) :
    c.answers .idle (.typeExpr id) = (c.typeExprRule id).outcome (c.answers .idle) :=
  answers_undeclared ht hmax (Guards.fits_idle _) rfl

theorem answers_of_derived (hg : g.Fits c.tree) (hr : r.Proper c.tree)
    (h : c.derived n r = .ok ty)
    (hfresh : ∀ decl ∈ g.active, ∀ ty', c.derived n (.entity decl) ≠ .ok ty') :
    c.answers g r = .ok ty := by
  rw [answers_eq hmax]
  exact replies_reach_of_derived ht hg hr h hfresh (Nat.le_refl _)

theorem answers_of_derives (hr : r.Proper c.tree) (h : c.Derives r ty) :
    c.answers .idle r = .ok ty := by
  obtain ⟨height, h⟩ := h
  apply answers_of_derived ht hmax (Guards.fits_idle _) hr h
  intro decl hmem
  cases hmem

theorem answerQuery_of_derives {q : Query} (hq : c.queried q = .request r)
    (hr : r.node.index < c.tree.size → r.Proper c.tree) (h : c.Derives r ty) :
    c.answerQuery q .idle = (.ok ty, .idle) := by
  rw [answerQuery_eq hq, answers_of_derives ht hmax (hr h.lt) h]

end Context

end TypeDerivation
