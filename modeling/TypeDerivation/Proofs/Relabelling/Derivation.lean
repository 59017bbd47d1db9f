import TypeDerivation.Proofs.Derivation.Outcome
import TypeDerivation.Proofs.Relabelling.Resolution
import TypeDerivation.Proofs.Relabelling.Type

/-!
Derivations over two trees with the same nodes under other numbers. If they get the same replies,
with the numbers changed, they come to the same answer, or fail in the same way.
-/

namespace TypeDerivation

def Request.relabel (ρ : Relabelling) : Request → Request
  | expr node => expr (ρ.node node)
  | entity node => entity (ρ.node node)
  | item node => item (ρ.node node)
  | typeExpr node => typeExpr (ρ.node node)

def Fault.relabel (ρ : Relabelling) : Fault → Fault
  | outside len index => outside len (ρ.node ⟨index⟩).index
  | notAnItem node category => notAnItem (ρ.node node) category
  | beyond len index => beyond len index
  | exhausted => exhausted

/-- An answer mapped by `f`, or a fault about the node in the other tree. -/
def Relabelling.result {α β : Type} (ρ : Relabelling) (f : α → β) : Except Fault α → Except Fault β
  | .ok a => .ok (f a)
  | .error fault => .error (fault.relabel ρ)

namespace Derivation

variable {α β γ δ : Type} {ρ : Relabelling} {reply reply' : Replies}

def Mirrored (ρ : Relabelling) (reply reply' : Replies) (f : α → β) (d : Derivation α)
    (d' : Derivation β) : Prop :=
  d'.outcome reply' = ρ.result f (d.outcome reply)

namespace Mirrored

variable {f : α → β} {d : Derivation α} {d' : Derivation β}

theorem done {a : α} {b : β} (h : b = f a) :
    Mirrored ρ reply reply' f (Derivation.done a) (Derivation.done b) := by
  rw [h]
  rfl

theorem unknown :
    Mirrored ρ reply reply' (Ty.relabel ρ) (Derivation.done .unknown) (Derivation.done .unknown) :=
  done (by rw [Ty.relabel])

theorem bind {g : γ → δ} {next : α → Derivation γ} {next' : β → Derivation δ}
    (h : Mirrored ρ reply reply' f d d')
    (hnext : ∀ a, Mirrored ρ reply reply' g (next a) (next' (f a))) :
    Mirrored ρ reply reply' g (d >>= next) (d' >>= next') := by
  rw [Mirrored, outcome_bind, outcome_bind, h]
  cases d.outcome reply with
  | ok a => exact hnext a
  | error fault => rfl

theorem map {g : γ → δ} {m : α → γ} {m' : β → δ} (h : Mirrored ρ reply reply' f d d')
    (hm : ∀ a, m' (f a) = g (m a)) : Mirrored ρ reply reply' g (m <$> d) (m' <$> d') := by
  rw [← bind_pure_comp, ← bind_pure_comp]
  exact h.bind fun a => done (hm a)

theorem forEach {i : γ → δ} {next : γ → Derivation α} {next' : δ → Derivation β}
    (h : ∀ a, Mirrored ρ reply reply' f (next a) (next' (i a))) (as : List γ) :
    Mirrored ρ reply reply' (List.map f) (Derivation.forEach next as)
      (Derivation.forEach next' (as.map i)) := by
  induction as with
  | nil => exact done rfl
  | cons a rest ih =>
    apply (h a).bind
    intro b
    exact ih.bind fun bs => done rfl

end Mirrored
end Derivation

namespace Context

open TypeDerivation.Derivation

/-- The second engine sees the tree and the table of the first one under other numbers. -/
structure Mirrors (ρ : Relabelling) (c c' : Context) : Prop where
  tree : c.tree.Mirrors ρ c'.tree
  settings : c'.settings = c.settings
  inference : c'.inference = c.inference
  declOf? : ∀ {id : NodeId} {k : NodeKind}, c.tree.kind? id = some k →
    c'.declOf? (ρ.node id) = (c.declOf? id).map ρ.node
  path : ∀ {p : SymbolPath} (scope : NodeId), (∀ n ∈ p.names, c.tree.Mentions n) →
    c'.resolver.path c'.tree (p.relabel ρ) (ρ.node scope) =
      (c.resolver.path c.tree p scope).map ρ.node

structure Echoes (ρ : Relabelling) (c c' : Context) (reply reply' : Replies) : Prop
    extends Mirrors ρ c c' where
  replies : ∀ r, reply' (r.relabel ρ) = ρ.result (Ty.relabel ρ) (reply r)

variable {α β : Type} {ρ : Relabelling} {c c' : Context} {reply reply' : Replies} {id : NodeId}

namespace Echoes

variable (h : c.Echoes ρ c' reply reply')
include h

theorem request (r : Request) : Mirrored ρ reply reply' (Ty.relabel ρ) (.request r)
    (.request (r.relabel ρ)) := by
  rw [Mirrored, outcome_request, outcome_request, h.replies]

theorem exprType (node : NodeId) : Mirrored ρ reply reply' (Ty.relabel ρ) (exprType node)
    (Derivation.exprType (ρ.node node)) := h.request (.expr node)

theorem denotedType (node : NodeId) : Mirrored ρ reply reply' (Ty.relabel ρ) (denotedType node)
    (Derivation.denotedType (ρ.node node)) := h.request (.typeExpr node)

theorem denotedOr {absent absent' : Ty} (ha : absent' = absent.relabel ρ) (o : Option NodeId) :
    Mirrored ρ reply reply' (Ty.relabel ρ) (denotedOr absent o)
      (denotedOr absent' (o.map ρ.node)) := by
  cases o with
  | none => exact .done ha
  | some id => exact h.denotedType id

theorem kind_bind {f : α → β} {next : NodeKind → Derivation α} {next' : NodeKind → Derivation β}
    (hnext : ∀ k, c.tree.kind? id = some k →
      Mirrored ρ reply reply' f (next k) (next' (k.relabel ρ))) :
    Mirrored ρ reply reply' f (c.kind id >>= next) (c'.kind (ρ.node id) >>= next') := by
  rw [kind, kind, h.tree.kind?, h.tree.size]
  cases hk : c.tree.kind? id with
  | none => rfl
  | some k => exact hnext k hk

theorem itemType (id : NodeId) :
    Mirrored ρ reply reply' (Ty.relabel ρ) (c.itemType id) (c'.itemType (ρ.node id)) := by
  apply h.kind_bind
  intro k _
  rw [k.isItem_relabel, k.category_relabel]
  split
  · exact h.request (.item id)
  · rfl

theorem variantType (variant : NodeId) :
    Mirrored ρ reply reply' (Ty.relabel ρ) (c.variantType variant)
      (c'.variantType (ρ.node variant)) := by
  rw [Context.variantType, Context.variantType, h.tree.variantEnum?]
  cases c.tree.variantEnum? variant with
  | none => exact .unknown
  | some decl => exact h.itemType decl

theorem receiverType (param : NodeId) :
    Mirrored ρ reply reply' (Ty.relabel ρ) (c.receiverType param)
      (c'.receiverType (ρ.node param)) := by
  apply h.kind_bind
  intro k _
  cases k with
  | decl d =>
    cases d with
    | selfParam byRef mutable =>
      simp only [NodeKind.relabel, Decl.relabel]
      rw [h.tree.implTarget?]
      apply (h.denotedOr (by rw [Ty.relabel]) _).bind
      intro ty
      cases byRef with
      | true => exact .done (by rw [if_pos rfl, if_pos rfl, Ty.relabel])
      | false => exact .done rfl
    | _ => exact .unknown
  | _ => exact .unknown

theorem paramType (param : NodeId) :
    Mirrored ρ reply reply' (Ty.relabel ρ) (c.paramType param) (c'.paramType (ρ.node param)) := by
  apply h.kind_bind
  intro k _
  cases k with
  | decl d =>
    cases d with
    | param pat ty => exact h.denotedOr (by rw [Ty.relabel]) ty
    | _ => exact .unknown
  | _ => exact .unknown

theorem signatureType (sig : Signature) :
    Mirrored ρ reply reply' (Ty.relabel ρ) (c.signatureType sig)
      (c'.signatureType (sig.relabel ρ)) := by
  have hself : (sig.relabel ρ).selfParam.toList = sig.selfParam.toList.map ρ.node :=
    Option.toList_map ..
  rw [Context.signatureType, Context.signatureType, hself]
  apply (Mirrored.forEach h.receiverType _).bind
  intro receiver
  apply (Mirrored.forEach h.paramType sig.params).bind
  intro params
  apply (h.denotedOr (by rw [Ty.relabel]) sig.ret).bind
  intro ret
  exact .done (by rw [Ty.relabel_fn, List.map_append])

theorem fnType (id : NodeId) :
    Mirrored ρ reply reply' (Ty.relabel ρ) (c.fnType id) (c'.fnType (ρ.node id)) := by
  apply h.kind_bind
  intro k _
  rw [k.signature?_relabel]
  cases k.signature? with
  | none => exact .unknown
  | some sig => exact h.signatureType sig

end Echoes
end Context

end TypeDerivation
