import TypeDerivation.Proofs.Engine.CycleCut

/-!
Two engines of which the second one resolves more names. Both keep the same guards, so that a
request is turned away on one side exactly if it is on the other.
-/

namespace TypeDerivation

namespace Context

open TypeDerivation.Derivation

variable {c : Context} {R' : Resolver} {policy policy' : Policy} {fuel : Nat}

theorem reach_withResolver (c : Context) (R : Resolver) : (c.withResolver R).reach = c.reach := rfl

/-- Replies get no vaguer if more names are known and whatever was let in still is, under the same
guards. -/
theorem improves_replies (hle : R'.Extends c.tree c.resolver)
    (hpolicy : ∀ {g r g'}, policy g r = some g' → policy' g r = some g') (g : Guards) :
    c.Improves R' (c.replies policy fuel g) ((c.withResolver R').replies policy' fuel g) := by
  refine ⟨hle, ?_, unknown_of_unresolved⟩
  induction fuel generalizing g with
  | zero =>
    intro r a b ha _
    rcases replies_eq_ok ha with ⟨-, rfl⟩ | ⟨g', n, -, hn, -⟩
    · exact .unknown b
    · cases hn
  | succ fuel ih =>
    intro r a b ha hb
    rcases replies_eq_ok ha with ⟨-, rfl⟩ | ⟨g', n, hp, hn, ha⟩
    · exact .unknown b
    · cases hn
      have himp : c.Improves R' (c.replies policy fuel g')
          ((c.withResolver R').replies policy' fuel g') := ⟨hle, ih g', unknown_of_unresolved⟩
      rw [replies_of_admitted (hpolicy hp)] at hb
      exact himp.rule r a b ha hb

/-- The same node, with a type that says no more. -/
def BlursAt (o o' : Option (NodeId × Ty)) : Prop :=
  o.map (·.1) = o'.map (·.1) ∧ ∀ x ∈ o, ∀ y ∈ o', x.2.Blurs y.2

theorem Improves.typeAtOffset {reply reply' : Replies} (h : c.Improves R' reply reply')
    (offset : Nat) :
    Related reply reply' BlursAt (c.typeAtOffset offset)
      ((c.withResolver R').typeAtOffset offset) := by
  rw [Context.typeAtOffset, Context.typeAtOffset, tree_withResolver]
  cases c.tree.nodeAtOffset? NodeKind.isTypeable offset with
  | none => exact .done ⟨rfl, by simp⟩
  | some id =>
    have htype : Related reply reply' Ty.Blurs (c.typeableType id)
        ((c.withResolver R').typeableType id) := by
      apply related_kind
      intro k _
      split
      · exact h.request _
      · exact h.request _
    refine htype.bind fun a b hab => .done ⟨rfl, ?_⟩
    rintro _ ⟨⟩ _ ⟨⟩
    exact hab

theorem answers_related {α β : Type} {R : α → β → Prop} {Q : α → Prop} {Q' : β → Prop}
    {d : Derivation α} {d' : Derivation β} (ht : c.tree.Ordered) (hR : c.resolver.Within c.tree)
    (hR' : R'.Within c.tree) (hle : R'.Extends c.tree c.resolver)
    (hd : d.Meets (Request.Proper c.tree) (Ty.Formed c.tree) Q)
    (hd' : d'.Meets (Request.Proper c.tree) (Ty.Formed c.tree) Q')
    (hrel : ∀ {reply reply'}, c.Improves R' reply reply' → Related reply reply' R d d') :
    ∃ a b, c.eval d .idle = (.ok a, .idle) ∧ (c.withResolver R').eval d' .idle = (.ok b, .idle) ∧
      R a b := by
  obtain ⟨a, ha, -⟩ := outcome_replies_ok ht hR c.settings.maxDepth hd (Nat.le_refl c.reach)
  obtain ⟨b, hb, -⟩ := outcome_replies_ok (c := c.withResolver R') ht hR' c.settings.maxDepth hd'
    (Nat.le_refl c.reach)
  refine ⟨a, b, ?_, ?_, hrel (improves_replies hle id .idle) a b ha hb⟩
  · rw [eval, run_eq_replies, ha]
  · rw [eval, run_eq_replies, reach_withResolver, settings_withResolver, hb]

end Context

/-- An engine that resolves more names, each to the same declaration, gives answers that say no
less, about the same nodes. -/
theorem answers_monotone {t : SyntaxTree} (ht : t.Built) {N N' : Resolver} (hN : N.Tabled t)
    (hN' : N'.Tabled t) (hle : N'.Extends t N) (s : Settings) (i : Inference) :
    let c : Context := ⟨t, N, s, i⟩
    let c' : Context := ⟨t, N', s, i⟩
    (∀ q r, q.request? = some r → r.Proper t →
      ∃ a b, c.answerQuery q .idle = (.ok a, .idle) ∧ c'.answerQuery q .idle = (.ok b, .idle) ∧
        a.Blurs b) ∧
    (∀ id kind, t.kind? id = some kind → kind.isItem = false →
      c.answerQuery (.item id) .idle = c'.answerQuery (.item id) .idle) ∧
    ∀ offset, ∃ a b, c.eval (c.typeAtOffset offset) .idle = (.ok a, .idle) ∧
      c'.eval (c'.typeAtOffset offset) .idle = (.ok b, .idle) ∧ Context.BlursAt a b := by
  intro c c'
  have ho : c.tree.Ordered := ht.ordered
  have hW : c.resolver.Within c.tree := hN.within ho
  have hW' : N'.Within c.tree := hN'.within ho
  refine ⟨?_, ?_, ?_⟩
  · intro q r hq hr
    have hrequest := Derivation.Meets.request (W := Ty.Formed t) hr
    rw [Context.answerQuery, Context.answerQuery, Context.queried_of_proper hq hr,
      Context.queried_of_proper (c := c') hq hr]
    exact Context.answers_related ho hW hW' hle hrequest hrequest fun h => h.request r
  · intro id kind hk hi
    rw [Context.answerQuery, Context.answerQuery, Context.queried, Context.queried,
      Context.itemType_eq_stop (c := c) hk hi, Context.itemType_eq_stop (c := c') hk hi,
      Context.eval_stop, Context.eval_stop]
  · intro offset
    exact Context.answers_related ho hW hW' hle (Context.meets_typeAtOffset offset)
      (Context.meets_typeAtOffset (c := c') offset) fun h => h.typeAtOffset offset

def unitAliasNames : ResolvedNames := ResolvedNames.empty.bindPath "B" ⟨3⟩

theorem unitAliasNames_within : unitAliasNames.Within twoAliases :=
  (ResolvedNames.within_empty _).bindPath _ (by rw [size_twoAliases]; decide)

theorem unitAliasNames_new : unitAliasNames.paths["A"]? = none := by
  rw [unitAliasNames, ResolvedNames.bindPath, Std.TreeMap.getElem?_insert, if_neg (by decide)]
  simp [ResolvedNames.empty]

theorem answers_monotone_twoAliases :
    let names := unitAliasNames
    let more := names.bindPath "A" ⟨1⟩
    twoAliases.Built ∧ names.resolver.Tabled twoAliases ∧ more.resolver.Tabled twoAliases ∧
      more.resolver.Extends twoAliases names.resolver ∧
      let c : Context := ⟨twoAliases, names.resolver, .standard, .structural⟩
      let c' : Context := ⟨twoAliases, more.resolver, .standard, .structural⟩
      (∃ a b, c.answerQuery (.entity ⟨1⟩) .idle = (.ok a, .idle) ∧
        c'.answerQuery (.entity ⟨1⟩) .idle = (.ok b, .idle) ∧ a.Blurs b) ∧
      c.answerQuery (.item ⟨2⟩) .idle = c'.answerQuery (.item ⟨2⟩) .idle :=
  have hN := Resolver.Tabled.names unitAliasNames_within
  have hmore : (unitAliasNames.bindPath "A" ⟨1⟩).Within twoAliases :=
    unitAliasNames_within.bindPath _ (by rw [size_twoAliases]; decide)
  have hN' := Resolver.Tabled.names hmore
  have hle := ResolvedNames.extends_bindPath unitAliasNames_new twoAliases ⟨1⟩
  have h := answers_monotone twoAliases_built hN hN' hle .standard .structural
  ⟨twoAliases_built, hN, hN', hle,
    h.1 (.entity ⟨1⟩) (.entity ⟨1⟩) rfl (by rw [Request.Proper, size_twoAliases]; decide),
    h.2.1 ⟨2⟩ (.typeExpr (.tuple [])) rfl rfl⟩

end TypeDerivation
