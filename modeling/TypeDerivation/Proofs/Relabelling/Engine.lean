import TypeDerivation.Proofs.Engine.Termination
import TypeDerivation.Proofs.Relabelling.Rule

/-!
What an engine answers does not depend on the order in which a tree was made, nor on that in which
its texts got their names.
-/

namespace TypeDerivation

def Guards.relabel (ρ : Relabelling) (g : Guards) : Guards := ⟨g.depth, g.active.map ρ.node⟩

def Query.relabel (ρ : Relabelling) : Query → Query
  | expr node => expr (ρ.node node)
  | entity node => entity (ρ.node node)
  | item node => item (ρ.node node)
  | typeExpr node => typeExpr (ρ.node node)
  | shape s scope => shape (s.relabel ρ) (ρ.node scope)
  | infer i binding top ty => infer i (ρ.node binding) (ρ.node top) (ty.relabel ρ)

variable {ρ : Relabelling}

theorem Request.decl?_relabel (r : Request) : (r.relabel ρ).decl? = r.decl?.map ρ.node := by
  cases r <;> rfl

theorem Guards.enter_relabel (hρ : Function.Injective ρ.node) (limit : Option Nat) (g : Guards)
    (r : Request) : (g.relabel ρ).enter limit (r.relabel ρ) =
      (g.enter limit r).map (Guards.relabel ρ) := by
  have hdeepen : (g.relabel ρ).deepen limit (r.relabel ρ) =
      (g.deepen limit r).map (Guards.relabel ρ) := by
    rw [deepen, deepen, relabel]
    split <;> rfl
  rw [enter, hdeepen, enter]
  cases g.deepen limit r with
  | none => rfl
  | some g =>
    simp only [Option.map_some, Option.bind_some, r.decl?_relabel]
    cases r.decl? with
    | none => rfl
    | some decl =>
      simp only [Option.map_some, relabel, List.mem_map_of_injective hρ]
      split <;> rfl

namespace Context.Mirrors

open TypeDerivation.Derivation

variable {α β : Type} {c c' : Context} (h : c.Mirrors ρ c')
include h

theorem replies (limit : Option Nat) (fuel : Nat) (g : Guards) (r : Request) :
    c'.replies (Guards.enter limit) fuel (g.relabel ρ) (r.relabel ρ) =
      ρ.result (Ty.relabel ρ) (c.replies (Guards.enter limit) fuel g r) := by
  have hunknown : (.ok .unknown : Except Fault Ty) = ρ.result (Ty.relabel ρ) (.ok .unknown) := by
    rw [Relabelling.result, Ty.relabel]
  -- The guards change on the way in, by the same numbers on both sides.
  induction fuel generalizing g r with
  | zero =>
    rw [Context.replies, Guards.enter_relabel h.tree.injective, Context.replies]
    cases g.enter limit r with
    | none => exact hunknown
    | some g' => rfl
  | succ fuel ih =>
    rw [Context.replies, Guards.enter_relabel h.tree.injective, Context.replies]
    cases g.enter limit r with
    | none => exact hunknown
    | some g' =>
      have hechoes : c.Echoes ρ c' (c.replies (Guards.enter limit) fuel g')
          (c'.replies (Guards.enter limit) fuel (g'.relabel ρ)) := ⟨h, ih g'⟩
      exact hechoes.rule r

theorem reach : c'.reach = c.reach := by
  rw [Context.reach, h.tree.size, Context.reach]

theorem echoes : c.Echoes ρ c' (c.replies (Guards.enter c.settings.maxDepth) c.reach .idle)
    (c'.replies (Guards.enter c'.settings.maxDepth) c'.reach .idle) := by
  refine ⟨h, fun r => ?_⟩
  rw [h.settings, h.reach]
  exact h.replies c.settings.maxDepth c.reach .idle r

omit h in
theorem eval {f : α → β} {d : Derivation α} {d' : Derivation β}
    (hd : Mirrored ρ (c.replies (Guards.enter c.settings.maxDepth) c.reach .idle)
      (c'.replies (Guards.enter c'.settings.maxDepth) c'.reach .idle) f d d') :
    c'.eval d' .idle = (ρ.result f (c.eval d .idle).1, .idle) := by
  rw [Context.eval, Context.eval, run_eq_replies, run_eq_replies, hd]

theorem answerQuery {q : Query} {r : Request} (hq : q.request? = some r) :
    c'.answerQuery (q.relabel ρ) .idle =
      (ρ.result (Ty.relabel ρ) (c.answerQuery q .idle).1, .idle) := by
  apply eval
  cases q with
  | expr id => exact h.echoes.exprType id
  | entity id => exact h.echoes.request (.entity id)
  | item id => exact h.echoes.itemType id
  | typeExpr id => exact h.echoes.denotedType id
  | shape _ _ | infer _ _ _ _ => cases hq

end Context.Mirrors

theorem Query.relabel_onNodes {t : SyntaxTree} {q : Query} {r : Request}
    (hq : q.request? = some r) (hid : r.node.index < t.size) :
    q.relabel (t.onNodes ρ) = q.relabel ρ := by
  have hnode : (t.onNodes ρ).node r.node = ρ.node r.node := SyntaxTree.onNodes_node hid
  cases q with
  | expr id =>
    cases hq
    exact congrArg expr hnode
  | entity id =>
    cases hq
    exact congrArg entity hnode
  | item id =>
    cases hq
    exact congrArg item hnode
  | typeExpr id =>
    cases hq
    exact congrArg typeExpr hnode
  | shape _ _ | infer _ _ _ _ => cases hq

theorem SyntaxTree.Carries.mirrors_context {t t' : SyntaxTree} (h : t.Carries ρ t') (ht : t.Built)
    (ht' : t'.Built) {names names' : ResolvedNames} (hw : names.Within t)
    (hn : names.Carries ρ t names') (s : Settings) (i : Inference) :
    Context.Mirrors (t.onNodes ρ) ⟨t, names.resolver, s, i⟩ ⟨t', names'.resolver, s, i⟩ where
  tree := h.mirrors ht ht'
  settings := rfl
  inference := rfl
  declOf? hk := (h.mirrors ht ht').reference? (hn.onNodes hw) (lt_of_kind? hk)
  path scope hp := (h.mirrors ht ht').path? (hn.onNodes hw) hp scope

/-- Make the nodes in another order, and name the texts in another order: every query about a node
is answered alike, with the numbers changed, and the answers have the same text. -/
theorem answers_renumbered {t t' : SyntaxTree} (ht : t.Built) (ht' : t'.Built)
    (h : t.Carries ρ t') {names names' : ResolvedNames} (hw : names.Within t)
    (hn : names.Carries ρ t names') (s : Settings) (i : Inference) {q : Query} {r : Request}
    (hq : q.request? = some r) (hid : r.node.index < t.size) :
    let c : Context := ⟨t, names.resolver, s, i⟩
    let c' : Context := ⟨t', names'.resolver, s, i⟩
    c'.answerQuery (q.relabel ρ) .idle =
        (ρ.result (Ty.relabel ρ) (c.answerQuery q .idle).1, .idle) ∧
      ∀ ty, (c.answerQuery q .idle).1 = .ok ty → (ty.relabel ρ).text t' = ty.text t := by
  intro c c'
  have hmirrors : c.Mirrors (t.onNodes ρ) c' := h.mirrors_context ht ht' hw hn s i
  have hanswer := hmirrors.answerQuery hq
  -- What was asked and what is answered are about nodes, where `ρ` and its restriction agree.
  rw [Query.relabel_onNodes hq hid] at hanswer
  rw [hanswer]
  rcases Context.answerQuery_cases (c := c) ht.ordered (hw.resolver ht.ordered) hq hid with
    ⟨ty, hty, hformed⟩ | ⟨id, category, hid, hstop⟩
  · rw [hty]
    refine ⟨?_, ?_⟩
    · rw [Relabelling.result, hformed.relabel_onNodes]
      rfl
    · rintro _ ⟨⟩
      rw [← hformed.relabel_onNodes]
      exact hmirrors.tree.typeText ty
  · rw [hstop]
    refine ⟨?_, fun _ hty => by cases hty⟩
    rw [Relabelling.result, Fault.relabel, SyntaxTree.onNodes_node hid]
    rfl

/-- A struct, a path to it, and a tuple of that path. -/
def structFirst : SyntaxTree :=
  .afterSteps .empty [.intern "P", .node (.item (.struct ⟨7⟩ [] [])),
    .node (.typeExpr (.path (.single ⟨7⟩))), .node (.typeExpr (.tuple [⟨1⟩]))]

/-- The same with the struct at the end, where another text was named before. -/
def structLast : SyntaxTree :=
  .afterSteps .empty [.intern "Q", .intern "P", .node (.typeExpr (.path (.single ⟨8⟩))),
    .node (.typeExpr (.tuple [⟨0⟩])), .node (.item (.struct ⟨8⟩ [] []))]

def moveStruct : Relabelling := ⟨fun id => ⟨(id.index + 2) % 3⟩, fun n => ⟨n.raw + 1⟩⟩

theorem structFirst_built : structFirst.Built := ⟨_, rfl⟩

theorem structLast_built : structLast.Built := ⟨_, rfl⟩

theorem bijOn_moveStruct :
    Set.BijOn moveStruct.node {id | id.index < 3} {id | id.index < 3} := by
  refine ⟨fun id _ => Nat.mod_lt _ (by decide), ?_, ?_⟩
  · rintro ⟨a⟩ (ha : a < 3) ⟨b⟩ (hb : b < 3) hab
    have hindex : (a + 2) % 3 = (b + 2) % 3 := congrArg NodeId.index hab
    congr 1
    omega
  · rintro ⟨a⟩ (ha : a < 3)
    refine ⟨⟨(a + 1) % 3⟩, Nat.mod_lt _ (by decide), ?_⟩
    have hindex : ((a + 1) % 3 + 2) % 3 = a := by omega
    exact congrArg NodeId.mk hindex

theorem kind?_structFirst {id : NodeId} {k : NodeKind} (hk : structFirst.kind? id = some k) :
    (id = ⟨0⟩ ∧ k = .item (.struct ⟨7⟩ [] [])) ∨
      (id = ⟨1⟩ ∧ k = .typeExpr (.path (.single ⟨7⟩))) ∨
        (id = ⟨2⟩ ∧ k = .typeExpr (.tuple [⟨1⟩])) := by
  obtain ⟨n⟩ := id
  have hlt : n < 3 := SyntaxTree.lt_of_kind? hk
  match n, hlt with
  | 0, _ => exact .inl ⟨rfl, (Option.some.inj hk).symm⟩
  | 1, _ => exact .inr (.inl ⟨rfl, (Option.some.inj hk).symm⟩)
  | 2, _ => exact .inr (.inr ⟨rfl, (Option.some.inj hk).symm⟩)

theorem mentions_structFirst {n : Name} (h : structFirst.Mentions n) : n = ⟨7⟩ := by
  obtain ⟨id, k, hk, hn⟩ := h
  rcases kind?_structFirst hk with ⟨-, rfl⟩ | ⟨-, rfl⟩ | ⟨-, rfl⟩
  · exact List.mem_singleton.mp hn
  · exact List.mem_singleton.mp hn
  · cases hn

theorem carries_moveStruct : structFirst.Carries moveStruct structLast where
  bijOn := bijOn_moveStruct
  kind? hk := by
    rcases kind?_structFirst hk with ⟨rfl, rfl⟩ | ⟨rfl, rfl⟩ | ⟨rfl, rfl⟩ <;> rfl
  interned hn := by
    rw [mentions_structFirst hn]
    decide
  text hn := by
    rw [mentions_structFirst hn]
    rfl

def structFirstNames : ResolvedNames := ResolvedNames.empty.bindPath "P" ⟨0⟩

def structLastNames : ResolvedNames := ResolvedNames.empty.bindPath "P" ⟨2⟩

theorem structFirstNames_within : structFirstNames.Within structFirst :=
  (ResolvedNames.within_empty _).bindPath _ (by decide)

theorem carries_structNames : structFirstNames.Carries moveStruct structFirst structLastNames where
  references _ := by
    simp [structFirstNames, structLastNames, ResolvedNames.bindPath, ResolvedNames.empty]
  paths text := by
    simp only [structFirstNames, structLastNames, ResolvedNames.bindPath, ResolvedNames.empty,
      Std.TreeMap.getElem?_insert]
    split <;> simp [moveStruct]

def structFirstContext : Context :=
  ⟨structFirst, structFirstNames.resolver, .standard, .structural⟩

theorem answer_structFirst : structFirstContext.answerQuery (.typeExpr ⟨2⟩) .idle =
    (.ok (.tuple [.struct ⟨0⟩]), .idle) := rfl

theorem answers_renumbered_moveStruct :
    let c : Context := ⟨structLast, structLastNames.resolver, .standard, .structural⟩
    structFirst.Built ∧ structLast.Built ∧ structFirst.Carries moveStruct structLast ∧
      structFirstNames.Within structFirst ∧
      structFirstNames.Carries moveStruct structFirst structLastNames ∧
      c.answerQuery (.typeExpr ⟨1⟩) .idle = (.ok (.tuple [.struct ⟨2⟩]), .idle) ∧
      (Ty.tuple [.struct ⟨2⟩]).text structLast = (Ty.tuple [.struct ⟨0⟩]).text structFirst := by
  intro c
  obtain ⟨hanswer, htext⟩ := answers_renumbered structFirst_built structLast_built
    carries_moveStruct structFirstNames_within carries_structNames .standard .structural
    (q := .typeExpr ⟨2⟩) (r := .typeExpr ⟨2⟩) rfl (by decide)
  have hfirst := congrArg Prod.fst answer_structFirst
  refine ⟨structFirst_built, structLast_built, carries_moveStruct, structFirstNames_within,
    carries_structNames, ?_, htext _ hfirst⟩
  exact hanswer.trans
    (congrArg (fun e => (moveStruct.result (Ty.relabel moveStruct) e, Guards.idle)) hfirst)

end TypeDerivation
