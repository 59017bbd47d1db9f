import TypeDerivation.Proofs.Derivation.Fuel
import TypeDerivation.Proofs.Engine.Termination

/-!
Many queries to one engine. The guards pass from each to the next, also when one of them fails, and
there is never anything in them that a later one could notice.
-/

namespace TypeDerivation

inductive Call where
  | query (q : Query)
  | offset (offset : Nat)
  | shape (node : NodeId)

inductive Reply where
  | type (ty : Ty)
  | hit (found : Option (NodeId × Ty))
  | shape (shape : Shape)
deriving DecidableEq

namespace Context

open TypeDerivation.Derivation

variable (c : Context)

def called : Call → Derivation Reply
  | .query q => .type <$> c.queried q
  | .offset offset => .hit <$> c.typeAtOffset offset
  | .shape node => .shape <$> c.shape node

/-- Calls one after the other, each under the guards that the one before has left. -/
def session : List Call → Guards → List (Except Fault Reply) × Guards
  | [], g => ([], g)
  | call :: rest, g =>
    let first := c.eval (c.called call) g
    let others := session rest first.2
    (first.1 :: others.1, others.2)

variable {c} {g : Guards} {r : Request} {fuel : Nat} {limit : Option Nat}

theorem restores_eval {α : Type} (d : Derivation α) : Guarded.Restores (c.eval d) :=
  restores_run (c.restores_answer c.reach) d

theorem session_eq (calls : List Call) (g : Guards) :
    c.session calls g = (calls.map fun call => (c.eval (c.called call) g).1, g) := by
  induction calls with
  | nil => rfl
  | cons call rest ih =>
    rw [session, restores_eval _ g, ih]
    rfl

theorem replies_ne_exhausted (ht : c.tree.Ordered) (hg : g.Fits c.tree)
    (hr : r.node.index < c.tree.size → r.Proper c.tree ∧ g.need c.tree r ≤ fuel) (hf : 1 ≤ fuel) :
    c.replies (Guards.enter limit) fuel g r ≠ .error .exhausted := by
  induction fuel generalizing g r with
  | zero => omega
  | succ fuel ih =>
    cases he : g.enter limit r with
    | none => simp [replies_of_refused he]
    | some g' =>
      rw [replies_of_admitted he]
      -- Work on a node of the tree leads to less work; work on any other number stops at once.
      by_cases hid : r.node.index < c.tree.size
      · obtain ⟨hproper, hn⟩ := hr hid
        have := Guards.one_lt_need hg hproper he
        apply fed_rule ht r
        intro r' hleads
        apply ih (hg.enter hproper he)
        · intro hid'
          have := Guards.need_lt hg hproper he (hleads hid')
          exact ⟨(hleads hid').1, by omega⟩
        · omega
      · rw [rule_of_foreign (Nat.le_of_not_lt hid)]
        simp [outcome]

theorem replies_reach_ne_exhausted (ht : c.tree.Ordered) (hg : g.Fits c.tree)
    (hr : r.node.index < c.tree.size → r.Proper c.tree) (hf : c.reach ≤ fuel) :
    c.replies (Guards.enter limit) fuel g r ≠ .error .exhausted := by
  have hreach : openBound c.tree.size ≤ c.reach := c.openBound_le_reach
  have hpos : 0 < c.reach := Nat.mul_pos (by omega) (by omega)
  apply replies_ne_exhausted ht hg
  · intro hid
    have hn : g.need c.tree r ≤ openBound c.tree.size := Guards.need_le (hr hid)
    exact ⟨hr hid, by omega⟩
  · omega

theorem fed_called (call : Call) :
    (c.called call).Fed fun r => r.node.index < c.tree.size → r.Proper c.tree := by
  have hP (r : Request) (hr : r.node.index < c.tree.size → r.Shallow c.tree)
      (hid : r.node.index < c.tree.size) : r.Proper c.tree := (hr hid).1
  cases call with
  | query q =>
    apply Fed.map
    cases q with
    | expr id | entity id | typeExpr id => exact Fed.request fun hid => hid
    | item id => exact fed_itemType hP id
    | shape shape scope => exact fed_shapeType scope (fun _ _ hid => hid) fun _ hid => hid
    | infer i binding top ty => exact fed_infer hP i binding top ty
  | offset offset =>
    apply Fed.map
    rw [typeAtOffset]
    split
    · exact .done _
    · have htype (id : NodeId) : (c.typeableType id).Fed
          fun r => r.node.index < c.tree.size → r.Proper c.tree := by
        rw [typeableType]
        apply fed_kind_bind
        intro k _
        split
        · exact Fed.request fun hid => hid
        · exact Fed.request fun hid => hid
      exact (htype _).bind fun _ => .done _
  | shape node => exact (fed_shape node).map

theorem eval_called_ne_exhausted (ht : c.tree.Ordered) (call : Call) :
    (c.eval (c.called call) .idle).1 ≠ .error .exhausted := by
  rw [eval, run_eq_replies]
  apply fed_called call
  intro r hr
  exact replies_reach_ne_exhausted ht (Guards.fits_idle _) hr (Nat.le_refl _)

end Context

/-- Every guarded call gives the guards back as it found them, so the queries of a session are
answered, or fail, like queries to fresh engines. -/
theorem queries_isolated {t : SyntaxTree} (ht : t.Built) (R : Resolver) (s : Settings)
    (i : Inference) :
    let c : Context := ⟨t, R, s, i⟩
    (∀ fuel r g, (c.answer fuel r g).2 = g) ∧
    (∀ calls, c.session calls .idle =
      (calls.map fun call => (c.eval (c.called call) .idle).1, .idle)) ∧
    ∀ call, (c.eval (c.called call) .idle).1 ≠ .error .exhausted ∧
      ∀ fuel, c.reach ≤ fuel → (c.called call).run (c.answer fuel) .idle =
        c.eval (c.called call) .idle := by
  intro c
  refine ⟨c.restores_answer, ?_, ?_⟩
  · intro calls
    exact Context.session_eq calls .idle
  · intro call
    have hne := Context.eval_called_ne_exhausted (c := c) ht.ordered call
    exact ⟨hne, fun fuel => Context.run_eq_eval hne⟩

/-- An alias of itself, a path to a declaration that is not there, and nested brackets. -/
def quirks : SyntaxTree :=
  .afterSteps .empty [.intern "A", .intern "B", .node (.typeExpr (.path (.single ⟨7⟩))),
    .node (.item (.typeAlias ⟨7⟩ [] (some ⟨0⟩))), .node (.typeExpr (.path (.single ⟨8⟩))),
    .node (.expr .unit), .node (.expr (.paren ⟨3⟩)), .node (.expr (.paren ⟨4⟩)),
    .node (.expr (.paren ⟨5⟩))]

def quirksNames : ResolvedNames := (ResolvedNames.empty.bindPath "A" ⟨1⟩).bindPath "B" ⟨9⟩

theorem quirks_built : quirks.Built := ⟨_, rfl⟩

def quirksContext : Context :=
  ⟨quirks, quirksNames.resolver, { Settings.standard with maxDepth := some 3 }, .structural⟩

def quirksCalls : List Call :=
  -- A cycle, a fault inside two guarded calls, a node that is no item, one that is not there, and
  -- brackets on both sides of the limit.
  [.query (.entity ⟨1⟩), .query (.typeExpr ⟨2⟩), .query (.item ⟨0⟩), .query (.expr ⟨8⟩),
    .query (.expr ⟨6⟩), .query (.expr ⟨5⟩), .query (.entity ⟨1⟩)]

def quirksReplies : List (Except Fault Reply) :=
  [.ok (.type .unknown), .error (.outside 7 9), .error (.notAnItem ⟨0⟩ "type annotation"),
    .error (.outside 7 8), .ok (.type .unknown), .ok (.type .unit), .ok (.type .unknown)]

set_option maxRecDepth 2048 in
theorem answers_quirks : (quirksCalls.map fun call =>
    (quirksContext.eval (quirksContext.called call) .idle).1) = quirksReplies := rfl

theorem queries_isolated_quirks :
    quirks.Built ∧ quirksContext.session quirksCalls .idle = (quirksReplies, .idle) := by
  have hsession := (queries_isolated quirks_built quirksNames.resolver
    { Settings.standard with maxDepth := some 3 } .structural).2.1 quirksCalls
  exact ⟨quirks_built, hsession.trans (congrArg (·, Guards.idle) answers_quirks)⟩

end TypeDerivation
