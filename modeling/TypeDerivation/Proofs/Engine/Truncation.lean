import TypeDerivation.Proofs.Engine.Degradation

/-!
The limit on the depth. Down to a lower limit the same requests are let in under the same guards,
and what lies deeper is unknown; a limit that is never reached changes nothing.
-/

namespace TypeDerivation

/-- The first limit lets in no more than the second. No limit at all is the largest one. -/
def DepthLimit.AtMost (limit limit' : Option Nat) : Prop := ∀ d' ∈ limit', ∃ d ∈ limit, d ≤ d'

namespace Guards

variable {limit limit' : Option Nat} {g g' : Guards} {r : Request} {k : Nat}

theorem lt_of_deepen (h : g.deepen (some k) r = some g') : g.depth < k := by
  rw [deepen] at h
  split at h
  · cases h
  · rename_i hk
    simpa using hk

theorem deepen_mono (hle : DepthLimit.AtMost limit limit') (h : g.deepen limit r = some g') :
    g.deepen limit' r = some g' := by
  cases limit' with
  | none =>
    rw [deepen_eq_some h]
    rfl
  | some d' =>
    obtain ⟨d, rfl, hd⟩ := hle d' rfl
    have := lt_of_deepen h
    rw [deepen_eq_some h, deepen_of_lt (by omega)]

theorem enter_mono (hle : DepthLimit.AtMost limit limit') (h : g.enter limit r = some g') :
    g.enter limit' r = some g' := by
  obtain ⟨g₁, h₁, h⟩ := Option.bind_eq_some_iff.mp h
  exact Option.bind_eq_some_iff.mpr ⟨g₁, deepen_mono hle h₁, h⟩

theorem enter_of_lt (h : g.depth < k) : g.enter (some k) r = g.enter none r := by
  rw [enter, deepen_of_lt h]
  rfl

end Guards

namespace Context

open TypeDerivation.Derivation

section

variable (c : Context) (limit : Option Nat)

def withLimit : Context := { c with settings := { c.settings with maxDepth := limit } }

theorem fieldNamed_withLimit (n : Name) (ids : List NodeId) :
    (c.withLimit limit).fieldNamed n ids = c.fieldNamed n ids := by
  induction ids with
  | nil => rfl
  | cons id rest ih =>
    rw [fieldNamed, fieldNamed, ih]
    rfl

theorem descend_withLimit (pat child : NodeId) (s : Place) :
    (c.withLimit limit).descend pat child s = c.descend pat child s := by
  have hnamed (fields : List FieldPat) (s : Place) :
      (c.withLimit limit).enterNamed pat child fields s = c.enterNamed pat child fields s := by
    rw [enterNamed, enterNamed]
    simp only [fieldNamed_withLimit]
    rfl
  rw [descend, descend]
  simp only [hnamed]
  rfl

theorem descendAll_withLimit (chain : List NodeId) (s : Place) :
    (c.withLimit limit).descendAll chain s = c.descendAll chain s := by
  induction chain generalizing s with
  | nil => rfl
  | cons pat rest ih =>
    cases rest with
    | nil => rfl
    | cons child rest =>
      rw [descendAll, descendAll, descend_withLimit]
      simp only [ih]

theorem infer_withLimit (i : Inference) (id top : NodeId) (ty : Ty) :
    (c.withLimit limit).infer i id top ty = c.infer i id top ty := by
  cases i with
  | identity => rfl
  | structural =>
    rw [infer, infer, inferStructural, inferStructural]
    simp only [descendAll_withLimit]
    rfl

theorem rule_withLimit (r : Request) : (c.withLimit limit).rule r = c.rule r := by
  cases r with
  | expr id | item id | typeExpr id => rfl
  | entity id =>
    have hbinding : (c.withLimit limit).bindingType id = c.bindingType id := by
      rw [bindingType, bindingType]
      simp only [infer_withLimit]
      rfl
    rw [rule, rule, entityRule, entityRule, hbinding]
    rfl

theorem queried_withLimit (q : Query) : (c.withLimit limit).queried q = c.queried q := by
  cases q with
  | infer i id top ty => exact c.infer_withLimit limit i id top ty
  | expr _ | entity _ | item _ | typeExpr _ | shape _ _ => rfl

theorem replies_withLimit (policy : Policy) (fuel : Nat) (g : Guards) :
    (c.withLimit limit).replies policy fuel g = c.replies policy fuel g := by
  induction fuel generalizing g with
  | zero => rfl
  | succ fuel ih =>
    funext r
    simp only [replies, rule_withLimit, ih]

theorem eval_withLimit {α : Type} (d : Derivation α) :
    (c.withLimit limit).eval d .idle =
      (d.outcome (c.replies (Guards.enter limit) c.reach .idle), .idle) := by
  rw [eval, run_eq_replies, replies_withLimit]
  rfl

end

section

variable {α : Type} (c : Context) (policy : Policy) (fuel : Nat) (d : Derivation α)

/-- While `d` is worked out, the requests of the list are open inside each other, the innermost
first, and the last request comes up on the innermost of them under the guards. -/
inductive Open : List Request → Guards → Request → Prop where
  | outer {r : Request} : d.Asks (c.replies policy fuel .idle) r → Open [] .idle r
  | inner {calls : List Request} {g g' : Guards} {r r' : Request} : Open calls g r →
    policy g r = some g' → (c.rule r).Asks (c.replies policy fuel g') r' → Open (r :: calls) g' r'

theorem open_of_underway {g : Guards} {r : Request} (h : c.Underway policy fuel d g r) :
    ∃ calls, c.Open policy fuel d calls g r := by
  induction h with
  | outer ha => exact ⟨[], .outer ha⟩
  | @inner g g' r r' _ he ha ih =>
    obtain ⟨calls, hopen⟩ := ih
    exact ⟨r :: calls, hopen.inner he ha⟩

theorem underway_of_open {calls : List Request} {g : Guards} {r : Request}
    (h : c.Open policy fuel d calls g r) : c.Underway policy fuel d g r := by
  induction h with
  | outer ha => exact .outer ha
  | inner _ he ha ih => exact ih.inner he ha

/-- At some time while `d` is worked out the guarded calls for these requests are active inside
each other, the innermost first. Such a call is active from where the limit on the depth lets it
in, even if its declaration turns out to be worked on already. -/
def Active (calls : List Request) : Prop :=
  ∃ rest g r, calls = r :: rest ∧
    c.Open (Guards.enter c.settings.maxDepth) c.reach d rest g r ∧
    (g.deepen c.settings.maxDepth r).isSome = true

end

variable {c : Context} {α : Type} {d : Derivation α} {limit limit' : Option Nat} {g : Guards}
  {r : Request} {k fuel : Nat} {calls : List Request}

theorem Open.depth_eq (h : c.Open (Guards.enter limit) fuel d calls g r) :
    g.depth = calls.length := by
  induction h with
  | outer _ => rfl
  | inner _ he _ ih => rw [(Guards.enter_eq_some he).1, ih, List.length_cons]

theorem length_le_of_active (hc : c.settings.maxDepth = some k) (h : c.Active d calls) :
    calls.length ≤ k := by
  obtain ⟨rest, g, r, rfl, hopen, hdeep⟩ := h
  obtain ⟨g', hg'⟩ := Option.isSome_iff_exists.mp hdeep
  rw [hc] at hg'
  have := Guards.lt_of_deepen hg'
  have := hopen.depth_eq
  rw [List.length_cons]
  omega

theorem lt_of_underway (hc : c.settings.maxDepth = none)
    (hk : ∀ calls, c.Active d calls → calls.length ≤ k)
    (h : c.Underway (Guards.enter none) c.reach d g r) : g.depth < k := by
  obtain ⟨calls, hopen⟩ := open_of_underway c _ _ d h
  have hlen := hk (r :: calls) ⟨calls, g, r, rfl, hc ▸ hopen, by rw [hc]; rfl⟩
  rw [List.length_cons] at hlen
  rw [hopen.depth_eq]
  omega

section

variable (ht : c.tree.Ordered) (hR : c.resolver.Within c.tree)
include ht hR

theorem replies_of_unreached {Q : α → Prop}
    (hd : d.Meets (Request.Proper c.tree) (Ty.Formed c.tree) Q)
    (hk : ∀ g r, c.Underway (Guards.enter none) c.reach d g r → g.depth < k)
    (h : c.Underway (Guards.enter none) c.reach d g r) :
    c.replies (Guards.enter none) c.reach g r = c.replies (Guards.enter (some k)) c.reach g r := by
  have hlt := hk g r h
  induction hn : k - g.depth generalizing g r with
  | zero => omega
  | succ n ih =>
    cases he : g.enter none r with
    | none => rw [replies_of_refused he, replies_of_refused (by rw [Guards.enter_of_lt hlt, he])]
    | some g' =>
      obtain ⟨hfits, hneed⟩ := h.fits ht hR hd
      have hproper := h.proper ht hR hd
      have := c.openBound_le_reach
      rw [replies_step ht hR hfits hproper he (by omega),
        replies_step ht hR hfits hproper (by rw [Guards.enter_of_lt hlt, he]) (by omega)]
      apply outcome_congr
      intro r' ha
      have hinner := h.inner he ha
      have := (Guards.enter_eq_some he).1
      exact ih hinner (hk g' r' hinner) (by omega)

theorem eval_of_unreached {Q : α → Prop}
    (hd : d.Meets (Request.Proper c.tree) (Ty.Formed c.tree) Q)
    (hk : ∀ g r, c.Underway (Guards.enter none) c.reach d g r → g.depth < k) :
    (c.withLimit (some k)).eval d .idle = (c.withLimit none).eval d .idle := by
  rw [eval_withLimit, eval_withLimit]
  congr 1
  exact (outcome_congr fun r ha => replies_of_unreached ht hR hd hk (.outer ha)).symm

theorem eval_truncated {Q : α → Prop} {R : α → α → Prop}
    (hd : d.Meets (Request.Proper c.tree) (Ty.Formed c.tree) Q)
    (hrel : ∀ {reply reply'}, c.Improves c.resolver reply reply' → Related reply reply' R d d)
    (hle : DepthLimit.AtMost limit limit') :
    ∃ a b, (c.withLimit limit).eval d .idle = (.ok a, .idle) ∧
      (c.withLimit limit').eval d .idle = (.ok b, .idle) ∧ R a b := by
  obtain ⟨a, ha, -⟩ := outcome_replies_ok ht hR limit hd (Nat.le_refl c.reach)
  obtain ⟨b, hb, -⟩ := outcome_replies_ok ht hR limit' hd (Nat.le_refl c.reach)
  have himp : c.Improves c.resolver (c.replies (Guards.enter limit) c.reach .idle)
      (c.replies (Guards.enter limit') c.reach .idle) :=
    improves_replies (Resolver.extends_refl _ _) (Guards.enter_mono hle) .idle
  exact ⟨a, b, by rw [eval_withLimit, ha], by rw [eval_withLimit, hb], hrel himp a b ha hb⟩

end

theorem Improves.queried {R' : Resolver} {reply reply' : Replies} (h : c.Improves R' reply reply')
    {q : Query} (hq : q.Proper c.tree) :
    Related reply reply' Ty.Blurs (c.queried q) ((c.withResolver R').queried q) := by
  cases q with
  | expr id | entity id | typeExpr id => exact h.request _
  | item id => exact h.itemType id
  | shape s scope => exact h.shapeType hq.1 s
  | infer i id top ty => exact h.infer i id top (.refl ty)

end Context

/-- The answer under a limit is a blur of that under any larger one; a limit bounds how many guarded
calls are active inside each other, and if none more are without a limit, it changes no answer. -/
theorem depth_limit_truncates {t : SyntaxTree} (ht : t.Built) {R : Resolver} (hR : R.Tabled t)
    (s : Settings) (i : Inference) :
    let c (limit : Option Nat) : Context := ⟨t, R, { s with maxDepth := limit }, i⟩
    (∀ limit limit', DepthLimit.AtMost limit limit' →
      (∀ q : Query, q.Proper t → ∃ a b, (c limit).answerQuery q .idle = (.ok a, .idle) ∧
        (c limit').answerQuery q .idle = (.ok b, .idle) ∧ a.Blurs b) ∧
      (∀ id kind, t.kind? id = some kind → kind.isItem = false →
        (c limit).answerQuery (.item id) .idle = (c limit').answerQuery (.item id) .idle) ∧
      ∀ offset, ∃ a b, (c limit).eval ((c limit).typeAtOffset offset) .idle = (.ok a, .idle) ∧
        (c limit').eval ((c limit').typeAtOffset offset) .idle = (.ok b, .idle) ∧
        Context.BlursAt a b) ∧
    (∀ k, (∀ q calls, (c (some k)).Active ((c (some k)).queried q) calls → calls.length ≤ k) ∧
      ∀ offset calls, (c (some k)).Active ((c (some k)).typeAtOffset offset) calls →
        calls.length ≤ k) ∧
    ∀ k,
      (∀ q : Query, q.Proper t →
        (∀ calls, (c none).Active ((c none).queried q) calls → calls.length ≤ k) →
        (c (some k)).answerQuery q .idle = (c none).answerQuery q .idle) ∧
      ∀ offset, (∀ calls, (c none).Active ((c none).typeAtOffset offset) calls →
          calls.length ≤ k) →
        (c (some k)).eval ((c (some k)).typeAtOffset offset) .idle =
          (c none).eval ((c none).typeAtOffset offset) .idle := by
  intro c
  have ho : (c none).tree.Ordered := ht.ordered
  have hW : (c none).resolver.Within (c none).tree := hR.within ho
  have hc (limit : Option Nat) : c limit = (c none).withLimit limit := rfl
  refine ⟨?_, ?_, ?_⟩
  · intro limit limit' hle
    refine ⟨?_, ?_, ?_⟩
    · intro q hq
      rw [Context.answerQuery, Context.answerQuery, hc limit, hc limit',
        Context.queried_withLimit, Context.queried_withLimit]
      exact Context.eval_truncated ho hW (Context.meets_queried ho hW hq) (fun h => h.queried hq) hle
    · intro id kind hk hi
      rw [Context.answerQuery, Context.answerQuery, Context.queried, Context.queried,
        Context.itemType_eq_stop (c := c limit) hk hi,
        Context.itemType_eq_stop (c := c limit') hk hi, Context.eval_stop, Context.eval_stop]
    · intro offset
      exact Context.eval_truncated ho hW (Context.meets_typeAtOffset offset)
        (fun h => h.typeAtOffset offset) hle
  · intro k
    exact ⟨fun q calls h => Context.length_le_of_active rfl h,
      fun offset calls h => Context.length_le_of_active rfl h⟩
  · intro k
    refine ⟨?_, ?_⟩
    · intro q hq hk
      rw [Context.answerQuery, Context.answerQuery, hc (some k), Context.queried_withLimit]
      exact Context.eval_of_unreached ho hW (Context.meets_queried ho hW hq)
        fun g r h => Context.lt_of_underway rfl hk h
    · intro offset hk
      exact Context.eval_of_unreached ho hW (Context.meets_typeAtOffset offset)
        fun g r h => Context.lt_of_underway rfl hk h

/-- A tuple around a tuple around a number. -/
def nestedTuples : SyntaxTree :=
  .afterSteps .empty [.shorthand (.pathTypeExpr "i32"), .node (.typeExpr (.tuple [⟨0⟩])),
    .node (.typeExpr (.tuple [⟨1⟩]))]

theorem nestedTuples_built : nestedTuples.Built := ⟨_, rfl⟩

theorem size_nestedTuples : nestedTuples.size = 3 := rfl

def nestedTuplesContext (limit : Option Nat) : Context :=
  ⟨nestedTuples, .none, { Settings.standard with maxDepth := limit }, .structural⟩

theorem underway_nestedTuples {g : Guards} {r : Request} {fuel : Nat}
    (h : (nestedTuplesContext none).Underway (Guards.enter none) fuel
      (.request (.typeExpr ⟨2⟩)) g r) : ∃ x, r = .typeExpr ⟨x⟩ ∧ g.depth + x = 2 := by
  induction h with
  | outer ha =>
    cases ha with
    | here => exact ⟨2, rfl, rfl⟩
    | later _ ha => cases ha
  | @inner g g' r r' _ he ha ih =>
    obtain ⟨x, rfl, hx⟩ := ih
    have hdepth := (Guards.enter_eq_some he).1
    -- each tuple asks for its only entry, and the number at the bottom for nothing
    match x, hx with
    | 0, _ =>
      have hrule : (nestedTuplesContext none).rule (.typeExpr ⟨0⟩) = .done (.int .i32) := rfl
      rw [hrule] at ha
      cases ha
    | 1, hx =>
      have hrule : (nestedTuplesContext none).rule (.typeExpr ⟨1⟩) =
          .ask (.typeExpr ⟨0⟩) fun ty => .done (.tuple [ty]) := rfl
      rw [hrule] at ha
      cases ha with
      | here => exact ⟨0, rfl, by omega⟩
      | later _ ha => cases ha
    | 2, hx =>
      have hrule : (nestedTuplesContext none).rule (.typeExpr ⟨2⟩) =
          .ask (.typeExpr ⟨1⟩) fun ty => .done (.tuple [ty]) := rfl
      rw [hrule] at ha
      cases ha with
      | here => exact ⟨1, rfl, by omega⟩
      | later _ ha => cases ha
    | x + 3, hx => omega

theorem active_nestedTuples {calls : List Request}
    (h : (nestedTuplesContext none).Active (.request (.typeExpr ⟨2⟩)) calls) :
    calls.length ≤ 3 := by
  obtain ⟨rest, g, r, rfl, hopen, -⟩ := h
  obtain ⟨x, -, hx⟩ := underway_nestedTuples (Context.underway_of_open _ _ _ _ hopen)
  have := hopen.depth_eq
  rw [List.length_cons]
  omega

theorem depth_limit_truncates_nestedTuples :
    let c := nestedTuplesContext
    let q : Query := .typeExpr ⟨2⟩
    nestedTuples.Built ∧ Resolver.none.Tabled nestedTuples ∧
      DepthLimit.AtMost (some 2) none ∧ q.Proper nestedTuples ∧
      (∃ a b, (c (some 2)).answerQuery q .idle = (.ok a, .idle) ∧
        (c none).answerQuery q .idle = (.ok b, .idle) ∧ a.Blurs b) ∧
      (∀ calls, (c none).Active ((c none).queried q) calls → calls.length ≤ 3) ∧
      (c (some 3)).answerQuery q .idle = (c none).answerQuery q .idle :=
  have hle : DepthLimit.AtMost (some 2) none := by simp [DepthLimit.AtMost]
  have hq : (Query.typeExpr ⟨2⟩).Proper nestedTuples := by
    rw [Query.Proper, size_nestedTuples]
    decide
  have h := depth_limit_truncates nestedTuples_built (.none) .standard .structural
  ⟨nestedTuples_built, .none, hle, hq, (h.1 (some 2) none hle).1 (.typeExpr ⟨2⟩) hq,
    fun _ => active_nestedTuples,
    (h.2.2 3).1 (.typeExpr ⟨2⟩) hq fun _ => active_nestedTuples⟩

/-- Below the limit there is nothing but the unknown type. -/
example : (nestedTuplesContext (some 2)).answerQuery (.typeExpr ⟨2⟩) .idle =
    (.ok (.tuple [.tuple [.unknown]]), .idle) := rfl

end TypeDerivation
