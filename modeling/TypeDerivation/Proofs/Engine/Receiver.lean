import TypeDerivation.Proofs.Derivation.Descent
import TypeDerivation.Proofs.Engine.Answers

/-!
Receivers, and what `Self` stands for. Both look for the impl around them; `Self` stops at a trait
on the way, a receiver does not.
-/

namespace TypeDerivation

open TypeDerivation.Derivation

/-- What a receiver has where methods are for the type. -/
def Ty.received (ty : Ty) (byRef mutable : Bool) : Ty := if byRef then .ref ty mutable else ty

namespace NodeKind

theorem isImplOrTrait_of_isImpl (k : NodeKind) (h : k.isImpl = true) : k.isImplOrTrait = true := by
  cases k with
  | item i =>
    cases i with
    | impl => rfl
    | _ => cases h
  | _ => cases h

end NodeKind

namespace SyntaxTree

variable {t : SyntaxTree} {id owner impl : NodeId} {generics members : List NodeId}
  {traitRef target : Option NodeId} {name : Name}

theorem implTarget?_of_enclosing? (h : t.enclosing? NodeKind.isImpl id = some impl)
    (hk : t.kind? impl = some (.item (.impl generics traitRef target members))) :
    t.implTarget? id = target := by
  simp only [implTarget?, h, Option.bind_eq_bind, Option.bind_some, hk]

theorem implTarget?_of_owner_impl (ht : t.Ordered)
    (h : t.enclosing? NodeKind.isImplOrTrait id = some owner)
    (hk : t.kind? owner = some (.item (.impl generics traitRef target members))) :
    t.implTarget? id = target := by
  have himpl : t.holds NodeKind.isImpl owner = true := holds_iff.mpr ⟨_, hk, rfl⟩
  apply implTarget?_of_enclosing? ?_ hk
  rw [ht.enclosing?_of_enclosing? NodeKind.isImplOrTrait_of_isImpl h, if_pos himpl]

theorem enclosing?_isImpl_of_owner_trait (ht : t.Ordered)
    (h : t.enclosing? NodeKind.isImplOrTrait id = some owner)
    (hk : t.kind? owner = some (.item (.trait name generics members))) :
    t.enclosing? NodeKind.isImpl id = t.enclosing? NodeKind.isImpl owner := by
  have himpl : ¬t.holds NodeKind.isImpl owner = true := by
    intro himpl
    rw [holds, hk] at himpl
    cases himpl
  rw [ht.enclosing?_of_enclosing? NodeKind.isImplOrTrait_of_isImpl h, if_neg himpl]

end SyntaxTree

/-- Inside an impl, a bare `Self` is looked up like the target. -/
theorem ResolvedNames.path?_self_of_impl (names : ResolvedNames) {t : SyntaxTree}
    {id owner target : NodeId} {generics members : List NodeId} {traitRef : Option NodeId}
    {p : SymbolPath} (howner : t.enclosing? NodeKind.isImplOrTrait id = some owner)
    (hk : t.kind? owner = some (.item (.impl generics traitRef (some target) members)))
    (htarget : t.kind? target = some (.typeExpr (.path p))) (hself : p.head ≠ .selfType) :
    names.path? t ⟨.selfType, []⟩ id = names.path? t p target := by
  have hbare : p.isBareSelfType = false := by simp [SymbolPath.isBareSelfType, hself]
  rw [path?, path?, hbare]
  change names.selfType? t id = names.ordinaryPath? t p target
  rw [selfType?, howner]
  simp only [Option.bind_eq_bind, Option.bind_some, hk, htarget, if_neg hself]

namespace Context

variable {c : Context} {param : NodeId} {byRef mutable : Bool} {reply : Replies}

theorem rule_of_receiver (hk : c.tree.kind? param = some (.decl (.selfParam byRef mutable))) :
    c.rule (.entity param) = c.receiverType param := by
  rw [rule, entityRule, kind_bind hk]

theorem outcome_receiverType (hk : c.tree.kind? param = some (.decl (.selfParam byRef mutable))) :
    (c.receiverType param).outcome reply = (·.received byRef mutable) <$>
      (c.tree.implTarget? param).elim (.ok .unknown) fun x => reply (.typeExpr x) := by
  rw [receiverType, kind_bind hk, ← outcome_denotedOr]
  simp only [outcome_bind]
  cases (denotedOr .unknown (c.tree.implTarget? param)).outcome reply <;> rfl

variable {id owner target : NodeId} {generics members : List NodeId} {traitRef : Option NodeId}
  {p : SymbolPath}

theorem typeExprRule_of_path (hk : c.tree.kind? id = some (.typeExpr (.path p)))
    (hprim : ∀ n, p.singleName? = some n → c.settings.primitives.get? (c.tree.text n) = none) :
    c.typeExprRule id = c.shapeType id (.path p) := by
  rw [typeExprRule_of_kind? hk, typeExprShape, pathShape_eq_path hprim]

theorem typeExprRule_self {names : ResolvedNames} (hR : c.resolver = names.resolver)
    (hid : c.tree.kind? id = some (.typeExpr (.path ⟨.selfType, []⟩)))
    (howner : c.tree.enclosing? NodeKind.isImplOrTrait id = some owner)
    (hk : c.tree.kind? owner = some (.item (.impl generics traitRef (some target) members)))
    (htarget : c.tree.kind? target = some (.typeExpr (.path p))) (hself : p.head ≠ .selfType)
    (hprim : ∀ n, p.singleName? = some n → c.settings.primitives.get? (c.tree.text n) = none) :
    c.typeExprRule id = c.typeExprRule target := by
  have hlookup : names.resolver.path c.tree ⟨.selfType, []⟩ id =
      names.resolver.path c.tree p target :=
    names.path?_self_of_impl howner hk htarget hself
  have hword (n : Name) (hn : (⟨.selfType, []⟩ : SymbolPath).singleName? = some n) :
      c.settings.primitives.get? (c.tree.text n) = none := by
    cases hn
  rw [typeExprRule_of_path hid hword, typeExprRule_of_path htarget hprim, shapeType, shapeType, hR,
    hlookup]

end Context

/-- A receiver whose nearest impl or trait is a trait has no concrete type if there is no impl around
the trait. If there is one, the receiver has the target of that impl. -/
theorem trait_receiver_sees_outer_impl {t : SyntaxTree} (ht : t.Built) (R : Resolver) (s : Settings)
    (i : Inference) {param owner : NodeId} {byRef mutable : Bool} {name : Name}
    {generics members : List NodeId}
    (hk : t.kind? param = some (.decl (.selfParam byRef mutable)))
    (howner : t.enclosing? NodeKind.isImplOrTrait param = some owner)
    (htrait : t.kind? owner = some (.item (.trait name generics members))) :
    let c : Context := ⟨t, R, s, i⟩
    (t.enclosing? NodeKind.isImpl owner = none → c.answerQuery (.entity param) .idle =
      (.ok (if s.maxDepth = some 0 then .unknown else Ty.unknown.received byRef mutable), .idle)) ∧
    ∀ impl generics traitRef target members, t.enclosing? NodeKind.isImpl owner = some impl →
      t.kind? impl = some (.item (.impl generics traitRef target members)) →
      c.answerQuery (.entity param) .idle = (if s.maxDepth = some 0 then .ok .unknown
        else (·.received byRef mutable) <$>
          target.elim (.ok .unknown) fun x => c.answers ⟨1, [param]⟩ (.typeExpr x), .idle) := by
  intro c
  have ho : c.tree.Ordered := ht.ordered
  have habove : t.enclosing? NodeKind.isImpl param = t.enclosing? NodeKind.isImpl owner :=
    SyntaxTree.enclosing?_isImpl_of_owner_trait ho howner htrait
  have hanswer : c.answerQuery (.entity param) .idle = (if s.maxDepth = some 0 then .ok .unknown
      else (·.received byRef mutable) <$>
        (t.implTarget? param).elim (.ok .unknown) fun x => c.answers ⟨1, [param]⟩ (.typeExpr x),
      .idle) := by
    rw [Context.answerQuery_eq (q := .entity param) rfl, Context.answers_entity ho,
      Context.rule_of_receiver hk, Context.outcome_receiverType hk]
  constructor
  · intro hnone
    have htarget : t.implTarget? param = none := by
      rw [SyntaxTree.implTarget?, habove, hnone]
      rfl
    rw [hanswer, htarget]
    split <;> rfl
  · intro impl generics traitRef target members himpl hkind
    have htarget : t.implTarget? param = target :=
      SyntaxTree.implTarget?_of_enclosing? (habove.trans himpl) hkind
    rw [hanswer, htarget]

/-- A trait with a method, once inside a method of an impl and once on its own. -/
def innerTrait : SyntaxTree :=
  .afterSteps .empty [.intern "S", .intern "T", .intern "m", .node (.item (.struct ⟨7⟩ [] [])),
    .node (.decl (.selfParam false false)),
    .node (.decl (.method ⟨9⟩ ⟨[], some ⟨1⟩, [], none, none⟩)),
    .node (.item (.trait ⟨8⟩ [] [⟨2⟩])), .node (.block [⟨3⟩] none), .node (.expr (.block (some ⟨4⟩))),
    .node (.decl (.method ⟨9⟩ ⟨[], none, [], none, some ⟨5⟩⟩)),
    .node (.typeExpr (.path (.single ⟨7⟩))), .node (.item (.impl [] none (some ⟨7⟩) [⟨6⟩])),
    .node (.decl (.selfParam true true)),
    .node (.decl (.method ⟨9⟩ ⟨[], some ⟨9⟩, [], none, none⟩)),
    .node (.item (.trait ⟨8⟩ [] [⟨10⟩]))]

theorem innerTrait_built : innerTrait.Built := ⟨_, rfl⟩

def innerTraitContext : Context :=
  ⟨innerTrait, (ResolvedNames.empty.bindPath "S" ⟨0⟩).resolver, .standard, .structural⟩

set_option maxRecDepth 4096 in
theorem kind?_innerTrait : innerTrait.kind? ⟨1⟩ = some (.decl (.selfParam false false)) ∧
    innerTrait.kind? ⟨3⟩ = some (.item (.trait ⟨8⟩ [] [⟨2⟩])) ∧
    innerTrait.kind? ⟨8⟩ = some (.item (.impl [] none (some ⟨7⟩) [⟨6⟩])) ∧
    innerTrait.kind? ⟨9⟩ = some (.decl (.selfParam true true)) ∧
    innerTrait.kind? ⟨11⟩ = some (.item (.trait ⟨8⟩ [] [⟨10⟩])) := ⟨rfl, rfl, rfl, rfl, rfl⟩

set_option maxRecDepth 4096 in
theorem enclosing?_innerTrait : innerTrait.enclosing? NodeKind.isImplOrTrait ⟨1⟩ = some ⟨3⟩ ∧
    innerTrait.enclosing? NodeKind.isImpl ⟨3⟩ = some ⟨8⟩ ∧
    innerTrait.enclosing? NodeKind.isImplOrTrait ⟨9⟩ = some ⟨11⟩ ∧
    innerTrait.enclosing? NodeKind.isImpl ⟨11⟩ = none := ⟨rfl, rfl, rfl, rfl⟩

set_option maxRecDepth 4096 in
theorem answers_innerTrait :
    innerTraitContext.answers ⟨1, [⟨1⟩]⟩ (.typeExpr ⟨7⟩) = .ok (.struct ⟨0⟩) := rfl

theorem trait_receiver_sees_outer_impl_innerTrait :
    innerTrait.Built ∧ innerTrait.kind? ⟨3⟩ = some (.item (.trait ⟨8⟩ [] [⟨2⟩])) ∧
      innerTraitContext.answerQuery (.entity ⟨1⟩) .idle = (.ok (.struct ⟨0⟩), .idle) ∧
      innerTraitContext.answerQuery (.entity ⟨9⟩) .idle = (.ok (.ref .unknown true), .idle) := by
  obtain ⟨hparam, htrait, himpl, hparam', htrait'⟩ := kind?_innerTrait
  obtain ⟨howner, houter, howner', hnone⟩ := enclosing?_innerTrait
  have hin := (trait_receiver_sees_outer_impl innerTrait_built
    (ResolvedNames.empty.bindPath "S" ⟨0⟩).resolver .standard .structural hparam howner htrait).2
    ⟨8⟩ [] none (some ⟨7⟩) [⟨6⟩] houter himpl
  have hout := (trait_receiver_sees_outer_impl innerTrait_built
    (ResolvedNames.empty.bindPath "S" ⟨0⟩).resolver .standard .structural hparam' howner' htrait').1
    hnone
  refine ⟨innerTrait_built, htrait, hin.trans ?_, hout⟩
  change ((·.received false false) <$>
    innerTraitContext.answers ⟨1, [⟨1⟩]⟩ (.typeExpr ⟨7⟩), Guards.idle) = _
  rw [answers_innerTrait]
  rfl

set_option maxRecDepth 4096 in
theorem receiver_of_inner_trait_concrete :
    innerTrait.Built ∧ innerTrait.kind? ⟨1⟩ = some (.decl (.selfParam false false)) ∧
      innerTrait.enclosing? NodeKind.isImplOrTrait ⟨1⟩ = some ⟨3⟩ ∧
      innerTrait.kind? ⟨3⟩ = some (.item (.trait ⟨8⟩ [] [⟨2⟩])) ∧
      (innerTraitContext.answerQuery (.entity ⟨1⟩) .idle).1 = .ok (.struct ⟨0⟩) ∧
      (innerTraitContext.answerQuery (.entity ⟨1⟩) .idle).1 ≠ .ok .unknown := by
  obtain ⟨hparam, htrait, -⟩ := kind?_innerTrait
  have hanswer : (innerTraitContext.answerQuery (.entity ⟨1⟩) .idle).1 = .ok (.struct ⟨0⟩) := rfl
  refine ⟨innerTrait_built, hparam, enclosing?_innerTrait.1, htrait, hanswer, ?_⟩
  rw [hanswer]
  simp

/-- Where an impl is for a path other than `Self` that names no primitive and can be worked out, a
bare `Self` inside it, a receiver and the target itself have one type; only that a receiver may be a
reference to it. -/
theorem self_agrees_inside_impl {t : SyntaxTree} (ht : t.Built) (names : ResolvedNames)
    (s : Settings) (i : Inference) {owner target : NodeId} {generics members : List NodeId}
    {traitRef : Option NodeId} {p : SymbolPath} {ty : Ty}
    (hk : t.kind? owner = some (.item (.impl generics traitRef (some target) members)))
    (htarget : t.kind? target = some (.typeExpr (.path p))) (hself : p.head ≠ .selfType)
    (hprim : ∀ n, p.singleName? = some n → s.primitives.get? (t.text n) = none) :
    let c : Context := ⟨t, names.resolver, { s with maxDepth := none }, i⟩
    c.Derives (.typeExpr target) ty →
    c.answerQuery (.typeExpr target) .idle = (.ok ty, .idle) ∧
      (∀ id, t.kind? id = some (.typeExpr (.path ⟨.selfType, []⟩)) →
        t.enclosing? NodeKind.isImplOrTrait id = some owner →
        c.answerQuery (.typeExpr id) .idle = (.ok ty, .idle)) ∧
      ∀ param byRef mutable, t.kind? param = some (.decl (.selfParam byRef mutable)) →
        t.enclosing? NodeKind.isImplOrTrait param = some owner →
        c.answerQuery (.entity param) .idle = (.ok (ty.received byRef mutable), .idle) := by
  intro c hty
  have ho : c.tree.Ordered := ht.ordered
  have hanswer : c.answers .idle (.typeExpr target) = .ok ty :=
    Context.answers_of_derives ho rfl (SyntaxTree.lt_of_kind? htarget) hty
  refine ⟨?_, ?_, ?_⟩
  · rw [Context.answerQuery_eq (q := .typeExpr target) rfl, hanswer]
  · intro id hid howner
    have hrule : c.typeExprRule id = c.typeExprRule target :=
      Context.typeExprRule_self rfl hid howner hk htarget hself hprim
    have hsame : c.answers .idle (.typeExpr id) = c.answers .idle (.typeExpr target) := by
      rw [Context.answers_typeExpr ho rfl, Context.answers_typeExpr ho rfl, hrule]
    rw [Context.answerQuery_eq (q := .typeExpr id) rfl, hsame, hanswer]
  · intro param byRef mutable hparam howner
    have hderives : c.Derives (.entity param) (ty.received byRef mutable) := by
      obtain ⟨height, hty⟩ := hty
      refine Context.derives_iff.mpr ⟨height, ?_⟩
      rw [Context.rule_of_receiver hparam, Context.outcome_receiverType hparam,
        SyntaxTree.implTarget?_of_owner_impl ho howner hk, Option.elim_some, hty]
      rfl
    have hproper : (Request.entity param).Proper c.tree := SyntaxTree.lt_of_kind? hparam
    rw [Context.answerQuery_eq (q := .entity param) rfl,
      Context.answers_of_derives ho rfl hproper hderives]

/-- An impl for an alias, with a method that takes and returns `Self` and one with a reference. -/
def aliasImpl : SyntaxTree :=
  .afterSteps .empty [.intern "S", .intern "A", .intern "m", .node (.item (.struct ⟨7⟩ [] [])),
    .node (.typeExpr (.path (.single ⟨7⟩))), .node (.item (.typeAlias ⟨8⟩ [] (some ⟨1⟩))),
    .node (.decl (.selfParam false false)), .node (.typeExpr (.path ⟨.selfType, []⟩)),
    .node (.decl (.method ⟨9⟩ ⟨[], some ⟨3⟩, [], some ⟨4⟩, none⟩)),
    .node (.decl (.selfParam true true)),
    .node (.decl (.method ⟨9⟩ ⟨[], some ⟨6⟩, [], none, none⟩)),
    .node (.typeExpr (.path (.single ⟨8⟩))), .node (.item (.impl [] none (some ⟨8⟩) [⟨5⟩, ⟨7⟩]))]

theorem aliasImpl_built : aliasImpl.Built := ⟨_, rfl⟩

def aliasImplNames : ResolvedNames := (ResolvedNames.empty.bindPath "S" ⟨0⟩).bindPath "A" ⟨2⟩

def aliasImplContext : Context := ⟨aliasImpl, aliasImplNames.resolver, .standard, .structural⟩

set_option maxRecDepth 4096 in
theorem kind?_aliasImpl : aliasImpl.kind? ⟨9⟩ = some (.item (.impl [] none (some ⟨8⟩) [⟨5⟩, ⟨7⟩])) ∧
    aliasImpl.kind? ⟨8⟩ = some (.typeExpr (.path (.single ⟨8⟩))) ∧
    aliasImpl.kind? ⟨4⟩ = some (.typeExpr (.path ⟨.selfType, []⟩)) ∧
    aliasImpl.kind? ⟨3⟩ = some (.decl (.selfParam false false)) ∧
    aliasImpl.kind? ⟨6⟩ = some (.decl (.selfParam true true)) := ⟨rfl, rfl, rfl, rfl, rfl⟩

set_option maxRecDepth 4096 in
theorem enclosing?_aliasImpl : aliasImpl.enclosing? NodeKind.isImplOrTrait ⟨4⟩ = some ⟨9⟩ ∧
    aliasImpl.enclosing? NodeKind.isImplOrTrait ⟨3⟩ = some ⟨9⟩ ∧
    aliasImpl.enclosing? NodeKind.isImplOrTrait ⟨6⟩ = some ⟨9⟩ := ⟨rfl, rfl, rfl⟩

set_option maxRecDepth 4096 in
theorem derives_aliasImpl : aliasImplContext.Derives (.typeExpr ⟨8⟩) (.struct ⟨0⟩) := ⟨4, rfl⟩

set_option maxRecDepth 4096 in
theorem primitives_aliasImpl (n : Name) (h : (SymbolPath.single ⟨8⟩).singleName? = some n) :
    Settings.standard.primitives.get? (aliasImpl.text n) = none := by
  cases h
  rfl

theorem self_agrees_inside_impl_aliasImpl :
    let c := aliasImplContext
    aliasImpl.Built ∧ c.Derives (.typeExpr ⟨8⟩) (.struct ⟨0⟩) ∧
      c.answerQuery (.typeExpr ⟨8⟩) .idle = (.ok (.struct ⟨0⟩), .idle) ∧
      c.answerQuery (.typeExpr ⟨4⟩) .idle = (.ok (.struct ⟨0⟩), .idle) ∧
      c.answerQuery (.entity ⟨3⟩) .idle = (.ok (.struct ⟨0⟩), .idle) ∧
      c.answerQuery (.entity ⟨6⟩) .idle = (.ok (.ref (.struct ⟨0⟩) true), .idle) := by
  intro c
  obtain ⟨himpl, htarget, hself, hparam, hparam'⟩ := kind?_aliasImpl
  obtain ⟨howner, hparamOwner, hparamOwner'⟩ := enclosing?_aliasImpl
  obtain ⟨hanswer, hall, hreceivers⟩ := self_agrees_inside_impl aliasImpl_built aliasImplNames
    .standard .structural himpl htarget (by decide) primitives_aliasImpl derives_aliasImpl
  exact ⟨aliasImpl_built, derives_aliasImpl, hanswer, hall ⟨4⟩ hself howner,
    hreceivers ⟨3⟩ false false hparam hparamOwner, hreceivers ⟨6⟩ true true hparam' hparamOwner'⟩

end TypeDerivation
