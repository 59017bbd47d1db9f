import TypeDerivation.Derivation.Rule
import TypeDerivation.Proofs.Derivation.Outcome
import TypeDerivation.Proofs.Resolution
import TypeDerivation.Proofs.Ty.Blurring

/-!
Two engines side by side, of which the second one knows at least what the first one knows. No rule
says more about less: what it makes of blurred replies is a blur of what it makes of sharp ones.
-/

namespace TypeDerivation

namespace Derivation

variable {α β γ δ : Type}

/-- If both derivations come to an answer, each under its own replies, the answers are related. -/
def Related (reply reply' : Replies) (R : α → β → Prop) (d : Derivation α) (d' : Derivation β) :
    Prop :=
  ∀ a b, d.outcome reply = .ok a → d'.outcome reply' = .ok b → R a b

namespace Related

variable {reply reply' : Replies} {R : α → β → Prop} {d : Derivation α} {d' : Derivation β}

theorem done {a : α} {b : β} (h : R a b) :
    Related reply reply' R (Derivation.done a) (Derivation.done b) := by
  intro x y hx hy
  cases hx
  cases hy
  exact h

theorem unknown (d' : Derivation Ty) :
    Related reply reply' Ty.Blurs (Derivation.done .unknown) d' := by
  intro a b ha _
  cases ha
  exact .unknown b

theorem absent (d' : Derivation (Option Place)) :
    Related reply reply' Place.Ahead (Derivation.done none) d' := by
  intro a b ha _
  cases ha
  exact Place.ahead_none

theorem bind {S : γ → δ → Prop} {f : α → Derivation γ} {f' : β → Derivation δ}
    (h : Related reply reply' R d d') (hf : ∀ a b, R a b → Related reply reply' S (f a) (f' b)) :
    Related reply reply' S (d >>= f) (d' >>= f') := by
  intro x y hx hy
  obtain ⟨a, ha, hx⟩ := outcome_bind_ok_iff.mp hx
  obtain ⟨b, hb, hy⟩ := outcome_bind_ok_iff.mp hy
  exact hf a b (h a b ha hb) x y hx hy

theorem map {S : γ → δ → Prop} {f : α → γ} {f' : β → δ} (h : Related reply reply' R d d')
    (hf : ∀ a b, R a b → S (f a) (f' b)) : Related reply reply' S (f <$> d) (f' <$> d') := by
  rw [← bind_pure_comp, ← bind_pure_comp]
  exact h.bind fun a b hab => .done (hf a b hab)

theorem forEach {f f' : α → Derivation Ty} {as : List α}
    (h : ∀ a, Related reply reply' Ty.Blurs (f a) (f' a)) :
    Related reply reply' Ty.BlursAll (forEach f as) (forEach f' as) := by
  induction as with
  | nil => exact .done .nil
  | cons a rest ih =>
    refine (h a).bind fun b b' hb => ?_
    exact ih.bind fun bs bs' hbs => .done (.cons hb hbs)

end Related
end Derivation

namespace Context

open TypeDerivation.Derivation

def withResolver (c : Context) (R : Resolver) : Context := { c with resolver := R }

theorem tree_withResolver (c : Context) (R : Resolver) : (c.withResolver R).tree = c.tree := rfl

theorem settings_withResolver (c : Context) (R : Resolver) :
    (c.withResolver R).settings = c.settings := rfl

/-- The replies `reply'` and the resolver `R'` say no less than `reply` and the resolver of `c`.
What `c` does not know the declaration of has an unknown type. -/
structure Improves (c : Context) (R' : Resolver) (reply reply' : Replies) : Prop where
  resolver : R'.Extends c.tree c.resolver
  blurs : ∀ {r : Request} {a b : Ty}, reply r = .ok a → reply' r = .ok b → a.Blurs b
  unresolved : ∀ {id : NodeId} {p : SymbolPath} {a : Ty},
    c.tree.kind? id = some (.expr (.path p)) → c.declOf? id = none → reply (.expr id) = .ok a →
      a = .unknown

variable {c : Context} {R' : Resolver} {reply reply' : Replies} {id : NodeId} {α β : Type}

theorem related_kind {R : α → β → Prop} {f : NodeKind → Derivation α} {f' : NodeKind → Derivation β}
    (h : ∀ k, c.tree.kind? id = some k → Related reply reply' R (f k) (f' k)) :
    Related reply reply' R (c.kind id >>= f) ((c.withResolver R').kind id >>= f') := by
  intro a b ha hb
  cases hk : c.tree.kind? id with
  | none =>
    rw [kind, hk] at ha
    cases ha
  | some k =>
    have hk' : (c.withResolver R').tree.kind? id = some k := hk
    rw [kind_eq_done hk] at ha
    rw [kind_eq_done hk'] at hb
    exact h k hk a b ha hb

namespace Improves

variable (h : c.Improves R' reply reply')
include h

theorem request (r : Request) :
    Related reply reply' Ty.Blurs (Derivation.request r) (Derivation.request r) := by
  intro a b ha hb
  rw [outcome_request] at ha hb
  exact h.blurs ha hb

theorem denotedOr (absent : Ty) (o : Option NodeId) :
    Related reply reply' Ty.Blurs (denotedOr absent o) (denotedOr absent o) := by
  cases o with
  | none => exact .done (.refl _)
  | some id => exact h.request _

theorem declOf?_cases (hid : id.index < c.tree.size) :
    c.declOf? id = none ∨
      ∃ decl, c.declOf? id = some decl ∧ (c.withResolver R').declOf? id = some decl := by
  cases hd : c.declOf? id with
  | none => exact .inl rfl
  | some decl => exact .inr ⟨decl, rfl, h.resolver.reference hid hd⟩

theorem itemType (id : NodeId) :
    Related reply reply' Ty.Blurs (c.itemType id) ((c.withResolver R').itemType id) := by
  refine related_kind fun k _ => ?_
  split
  · exact h.request _
  · intro a b ha _
    cases ha

theorem variantType (variant : NodeId) :
    Related reply reply' Ty.Blurs (c.variantType variant)
      ((c.withResolver R').variantType variant) := by
  rw [Context.variantType, Context.variantType, tree_withResolver]
  cases c.tree.variantEnum? variant with
  | none => exact .unknown _
  | some decl => exact h.itemType decl

theorem receiverType (param : NodeId) :
    Related reply reply' Ty.Blurs (c.receiverType param)
      ((c.withResolver R').receiverType param) := by
  refine related_kind fun k _ => ?_
  split
  · refine (h.denotedOr .unknown _).bind fun a b hab => .done ?_
    split
    · exact .ref _ hab
    · exact hab
  · exact .unknown _

theorem paramType (param : NodeId) :
    Related reply reply' Ty.Blurs (c.paramType param) ((c.withResolver R').paramType param) := by
  refine related_kind fun k _ => ?_
  split
  · exact h.denotedOr .unknown _
  · exact .unknown _

theorem signatureType (sig : Signature) :
    Related reply reply' Ty.Blurs (c.signatureType sig)
      ((c.withResolver R').signatureType sig) := by
  refine (Related.forEach h.receiverType).bind fun rs rs' hrs => ?_
  refine (Related.forEach h.paramType).bind fun ps ps' hps => ?_
  exact (h.denotedOr .unit _).bind fun ret ret' hret => .done (.fn (hrs.append hps) hret)

theorem fnType (id : NodeId) :
    Related reply reply' Ty.Blurs (c.fnType id) ((c.withResolver R').fnType id) := by
  refine related_kind fun k _ => ?_
  cases k.signature? with
  | none => exact .unknown _
  | some sig => exact h.signatureType sig

end Improves

end Context

end TypeDerivation
