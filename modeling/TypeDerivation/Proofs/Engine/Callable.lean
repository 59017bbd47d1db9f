import TypeDerivation.Proofs.Engine.Brackets
import TypeDerivation.Proofs.Engine.Signature

/-!
The ways to use something that can be called. A variant has one type, whether it is named, called or
filled in like a struct; a function returns the same, whether it is called by a path or as a method.
-/

namespace TypeDerivation

open TypeDerivation.Derivation

namespace SyntaxTree

/-- The variant stands in the body of the enum. -/
def VariantOf (t : SyntaxTree) (variant enum : NodeId) : Prop :=
  ∃ body, t.parent? variant = some body ∧ t.holds NodeKind.isEnumBody body = true ∧
    t.parent? body = some enum ∧ t.holds NodeKind.isEnum enum = true

theorem variantEnum?_iff_variantOf {t : SyntaxTree} {variant enum : NodeId} :
    t.variantEnum? variant = some enum ↔ t.VariantOf variant enum := by
  simp only [variantEnum?, Option.bind_eq_bind, Option.bind_eq_some_iff, Option.filter_eq_some_iff,
    VariantOf, and_assoc]

end SyntaxTree

namespace Context

section

variable (c : Context)

inductive Makes (variant : NodeId) : NodeId → Prop where
  | path {x : NodeId} {p : SymbolPath} : c.tree.kind? x = some (.expr (.path p)) →
    c.declOf? x = some variant → Makes variant x
  | call {x f : NodeId} {args : List NodeId} {p : SymbolPath} :
    c.tree.kind? x = some (.expr (.call f args)) → c.tree.kind? f = some (.expr (.path p)) →
    c.declOf? f = some variant → Makes variant x
  | struct {x : NodeId} {p : SymbolPath} {fields : List FieldInit} {base : Option NodeId} :
    c.tree.kind? x = some (.expr (.struct p fields base)) → c.declOf? x = some variant →
    Makes variant x

inductive Calls (fn : NodeId) : NodeId → Prop where
  | path {x f : NodeId} {args : List NodeId} {p : SymbolPath} :
    c.tree.kind? x = some (.expr (.call f args)) → c.tree.kind? f = some (.expr (.path p)) →
    c.declOf? f = some fn → Calls fn x
  | method {x receiver : NodeId} {name : Name} {args : List NodeId} :
    c.tree.kind? x = some (.expr (.methodCall receiver name args)) → c.declOf? x = some fn →
    Calls fn x

/-- The enum that a variant is of, or the unknown type if it stands in none. -/
inductive VariantHas (variant : NodeId) : Ty → Prop where
  | enum {enum : NodeId} : c.tree.VariantOf variant enum → VariantHas variant (.enum enum)
  | stray : (∀ enum, ¬c.tree.VariantOf variant enum) → VariantHas variant .unknown

end

variable {c : Context} {variant fn f x : NodeId} {name : Name} {fields : List NodeId}
  {kind : NodeKind} {sig : Signature} {ty ret : Ty} {params : List Ty} {n : Nat}

theorem VariantHas.unique {ty' : Ty} (h : c.VariantHas variant ty) (h' : c.VariantHas variant ty') :
    ty = ty' := by
  cases h with
  | enum h =>
    cases h' with
    | enum h' =>
      rw [← SyntaxTree.variantEnum?_iff_variantOf] at h h'
      rw [Option.some.inj (h.symm.trans h')]
    | stray hnone => exact absurd h (hnone _)
  | stray hnone =>
    cases h' with
    | enum h' => exact absurd h' (hnone _)
    | stray => rfl

theorem derived_item_of_enum (h : c.tree.holds NodeKind.isEnum x = true) :
    c.derived 1 (.item x) = .ok (.enum x) := by
  obtain ⟨kind, hk, henum⟩ := SyntaxTree.holds_iff.mp h
  rw [derived, rule, itemRule, kind_bind hk]
  cases kind with
  | item i =>
    cases i with
    | enum => rfl
    | _ => cases henum
  | _ => cases henum

theorem exists_variantType (c : Context) (variant : NodeId) :
    ∃ ty, c.VariantHas variant ty ∧ (c.variantType variant).outcome (c.derived 1) = .ok ty := by
  cases he : c.tree.variantEnum? variant with
  | none =>
    refine ⟨.unknown, .stray ?_, by rw [variantType, he]; rfl⟩
    intro enum h
    cases he.symm.trans (SyntaxTree.variantEnum?_iff_variantOf.mpr h)
  | some enum =>
    have howner := SyntaxTree.variantEnum?_iff_variantOf.mp he
    obtain ⟨-, -, -, -, henum⟩ := id howner
    obtain ⟨kind, hk, hkind⟩ := SyntaxTree.holds_iff.mp henum
    have hitem : kind.isItem = true := by
      cases kind with
      | item i => rfl
      | _ => cases hkind
    refine ⟨.enum enum, .enum howner, ?_⟩
    rw [variantType, he]
    simp only [itemType, kind_bind hk, hitem, if_true, outcome_request]
    exact derived_item_of_enum henum

section

variable (hk : c.tree.kind? variant = some (.decl (.variant name fields)))
include hk

theorem derives_variant (h : (c.variantType variant).outcome (c.derived n) = .ok ty) :
    c.Derives (.entity variant) ty := by
  refine derives_iff.mpr ⟨n, ?_⟩
  rw [rule, entityRule, kind_bind hk]
  exact h

theorem Makes.derives (hx : c.Makes variant x)
    (h : (c.variantType variant).outcome (c.derived n) = .ok ty) : c.Derives (.expr x) ty := by
  cases hx with
  | path hpath hd =>
    obtain ⟨m, hm⟩ := derives_variant hk h
    refine derives_iff.mpr ⟨m, ?_⟩
    rw [rule_of_expr hpath, exprTypeOf, pathType, hd]
    exact (outcome_request _).trans hm
  | call hcall hpath hd =>
    have hconstructs : c.Constructs _ variant :=
      ⟨_, hpath, hd, SyntaxTree.holds_iff.mpr ⟨_, hk, rfl⟩⟩
    refine derives_iff.mpr ⟨n, ?_⟩
    rw [rule_of_expr hcall, exprTypeOf, callType_of_constructs hconstructs, h]
  | struct hstruct hd =>
    refine derives_iff.mpr ⟨n, ?_⟩
    rw [rule_of_expr hstruct, exprTypeOf, structLiteralType, hd]
    simp only [kind_bind hk, h]

end

section

variable (hk : c.tree.kind? fn = some kind) (hsig : kind.signature? = some sig)
include hk hsig

theorem exists_fn_of_derives (h : c.Derives (.entity fn) ty) :
    ∃ params ret, ty = .fn params ret := by
  obtain ⟨n, h⟩ := derives_iff.mp h
  rw [rule_of_signature hk hsig, signatureType] at h
  obtain ⟨receiver, -, h⟩ := outcome_bind_ok_iff.mp h
  obtain ⟨params, -, h⟩ := outcome_bind_ok_iff.mp h
  obtain ⟨ret, -, h⟩ := outcome_bind_ok_iff.mp h
  cases h
  exact ⟨receiver ++ params, ret, rfl⟩

theorem Calls.derives (hx : c.Calls fn x) (h : c.Derives (.entity fn) (.fn params ret)) :
    c.Derives (.expr x) ret := by
  cases hx with
  | @path f args p hcall hpath hd =>
    have hnot (variant : NodeId) : ¬c.Constructs f variant := by
      rintro ⟨-, -, hd', hv⟩
      cases hd.symm.trans hd'
      rw [SyntaxTree.holds, hk] at hv
      cases kind with
      | decl d => cases d <;> simp_all [NodeKind.isVariant, NodeKind.signature?]
      | _ => cases hv
    have hconstructed : c.constructed? f = .done none := by
      apply constructed?_eq_none hnot hpath
      intro _ decl _ hd'
      cases hd.symm.trans hd'
      exact SyntaxTree.lt_of_kind? hk
    obtain ⟨n, h⟩ := h
    have hcallee : c.derived (n + 1) (.expr f) = .ok (.fn params ret) := by
      rw [derived, rule_of_expr hpath, exprTypeOf, pathType, hd]
      exact (outcome_request _).trans h
    refine derives_iff.mpr ⟨n + 1, ?_⟩
    rw [rule_of_expr hcall, exprTypeOf, callType, hconstructed]
    exact outcome_bind_ok_iff.mpr ⟨none, rfl,
      outcome_bind_ok_iff.mpr ⟨_, (outcome_request _).trans hcallee, rfl⟩⟩
  | method hcall hd =>
    have hhas : kind.hasSignature = true := by rw [NodeKind.hasSignature, hsig]; rfl
    obtain ⟨n, h⟩ := derives_iff.mp h
    rw [rule_of_signature hk hsig, ← fnType_of_signature hk hsig] at h
    refine derives_iff.mpr ⟨n, ?_⟩
    rw [rule_of_expr hcall, exprTypeOf, methodCallType, hd]
    simp only [kind_bind hk, hhas, if_true]
    exact outcome_bind_ok_iff.mpr ⟨_, h, rfl⟩

end

end Context

/-- Without a limit, a variant, its path, a call of its path and a struct literal of it have one
type: its enum, or the unknown type if it stands in none. And where the type of a function can be
worked out, calls of its path and method calls have what that type says is returned. -/
theorem uses_agree {t : SyntaxTree} (ht : t.Built) (R : Resolver) (s : Settings) (i : Inference) :
    let c : Context := ⟨t, R, { s with maxDepth := none }, i⟩
    (∀ variant name fields, t.kind? variant = some (.decl (.variant name fields)) →
      ∃ ty, c.VariantHas variant ty ∧ c.answerQuery (.entity variant) .idle = (.ok ty, .idle) ∧
        ∀ x, c.Makes variant x → c.answerQuery (.expr x) .idle = (.ok ty, .idle)) ∧
    ∀ fn kind sig ty, t.kind? fn = some kind → kind.signature? = some sig →
      c.Derives (.entity fn) ty → ∃ params ret,
        c.answerQuery (.entity fn) .idle = (.ok (.fn params ret), .idle) ∧
        ∀ x, c.Calls fn x → c.answerQuery (.expr x) .idle = (.ok ret, .idle) := by
  intro c
  have ho : c.tree.Ordered := ht.ordered
  have hexpr {x : NodeId} {ty : Ty} (h : c.Derives (.expr x) ty) :
      c.answerQuery (.expr x) .idle = (.ok ty, .idle) :=
    Context.answerQuery_of_derives ho rfl rfl id h
  have hentity {x : NodeId} {ty : Ty} (h : c.Derives (.entity x) ty) :
      c.answerQuery (.entity x) .idle = (.ok ty, .idle) :=
    Context.answerQuery_of_derives ho rfl rfl id h
  constructor
  · intro variant name fields hk
    obtain ⟨ty, hhas, hty⟩ := c.exists_variantType variant
    exact ⟨ty, hhas, hentity (Context.derives_variant hk hty), fun x hx => hexpr (hx.derives hk hty)⟩
  · intro fn kind sig ty hk hsig hty
    obtain ⟨params, ret, rfl⟩ := Context.exists_fn_of_derives hk hsig hty
    exact ⟨params, ret, hentity hty, fun x hx => hexpr (hx.derives hk hsig hty)⟩

/-- A variant in an enum and one on its own, and a method that returns the enum, each used in the
ways there are. -/
def callables : SyntaxTree :=
  .afterSteps .empty [.intern "V", .intern "E", .intern "m", .intern "W",
    .node (.decl (.variant ⟨7⟩ [])), .node (.enumBody [⟨0⟩]),
    .node (.item (.enum ⟨8⟩ [] (some ⟨1⟩))), .node (.typeExpr (.path (.single ⟨8⟩))),
    .node (.decl (.method ⟨9⟩ ⟨[], none, [], some ⟨3⟩, none⟩)), .node (.expr (.path (.single ⟨7⟩))),
    .node (.expr (.call ⟨5⟩ [])), .node (.expr (.struct (.single ⟨7⟩) [] none)),
    .node (.expr (.path (.single ⟨9⟩))), .node (.expr (.call ⟨8⟩ [⟨6⟩])), .node (.expr .unit),
    .node (.expr (.methodCall ⟨10⟩ ⟨9⟩ [⟨7⟩])), .node (.decl (.variant ⟨10⟩ [])),
    .node (.expr (.path (.single ⟨10⟩)))]

theorem callables_built : callables.Built := ⟨_, rfl⟩

def callablesNames : ResolvedNames :=
  ((((ResolvedNames.empty.bindPath "V" ⟨0⟩).bindPath "E" ⟨2⟩).bindPath "m" ⟨4⟩).bindPath "W"
    ⟨12⟩).bindReference ⟨11⟩ ⟨4⟩

def callablesContext : Context := ⟨callables, callablesNames.resolver, .standard, .structural⟩

set_option maxRecDepth 4096 in
theorem kind?_callables : callables.kind? ⟨0⟩ = some (.decl (.variant ⟨7⟩ [])) ∧
    callables.kind? ⟨12⟩ = some (.decl (.variant ⟨10⟩ [])) ∧
    callables.kind? ⟨4⟩ = some (.decl (.method ⟨9⟩ ⟨[], none, [], some ⟨3⟩, none⟩)) :=
  ⟨rfl, rfl, rfl⟩

set_option maxRecDepth 4096 in
theorem declOf?_callables : let c := callablesContext
    c.declOf? ⟨5⟩ = some ⟨0⟩ ∧ c.declOf? ⟨7⟩ = some ⟨0⟩ ∧ c.declOf? ⟨13⟩ = some ⟨12⟩ ∧
      c.declOf? ⟨8⟩ = some ⟨4⟩ ∧ c.declOf? ⟨11⟩ = some ⟨4⟩ := ⟨rfl, rfl, rfl, rfl, rfl⟩

set_option maxRecDepth 4096 in
theorem makes_callables : let c := callablesContext
    c.Makes ⟨0⟩ ⟨5⟩ ∧ c.Makes ⟨0⟩ ⟨6⟩ ∧ c.Makes ⟨0⟩ ⟨7⟩ ∧ c.Makes ⟨12⟩ ⟨13⟩ := by
  obtain ⟨hpath, hstruct, hstray, -, -⟩ := declOf?_callables
  exact ⟨.path rfl hpath, .call rfl rfl hpath, .struct rfl hstruct, .path rfl hstray⟩

set_option maxRecDepth 4096 in
theorem calls_callables : let c := callablesContext
    c.Calls ⟨4⟩ ⟨9⟩ ∧ c.Calls ⟨4⟩ ⟨11⟩ := by
  obtain ⟨-, -, -, hpath, hmethod⟩ := declOf?_callables
  exact ⟨.path rfl rfl hpath, .method rfl hmethod⟩

set_option maxRecDepth 4096 in
theorem variantHas_callables : let c := callablesContext
    c.VariantHas ⟨0⟩ (.enum ⟨2⟩) ∧ c.VariantHas ⟨12⟩ .unknown := by
  refine ⟨.enum ⟨⟨1⟩, rfl, rfl, rfl, rfl⟩, .stray ?_⟩
  rintro enum ⟨body, hparent, -⟩
  cases hparent

set_option maxRecDepth 4096 in
theorem derives_callables : callablesContext.Derives (.entity ⟨4⟩) (.fn [] (.enum ⟨2⟩)) := ⟨4, rfl⟩

set_option maxRecDepth 4096 in
theorem answer_callables : callablesContext.answerQuery (.entity ⟨4⟩) .idle =
    (.ok (.fn [] (.enum ⟨2⟩)), .idle) := rfl

theorem uses_agree_callables :
    let c := callablesContext
    callables.Built ∧ c.answerQuery (.entity ⟨0⟩) .idle = (.ok (.enum ⟨2⟩), .idle) ∧
      c.answerQuery (.expr ⟨5⟩) .idle = (.ok (.enum ⟨2⟩), .idle) ∧
      c.answerQuery (.expr ⟨6⟩) .idle = (.ok (.enum ⟨2⟩), .idle) ∧
      c.answerQuery (.expr ⟨7⟩) .idle = (.ok (.enum ⟨2⟩), .idle) ∧
      c.answerQuery (.expr ⟨13⟩) .idle = (.ok .unknown, .idle) ∧
      c.answerQuery (.expr ⟨9⟩) .idle = (.ok (.enum ⟨2⟩), .idle) ∧
      c.answerQuery (.expr ⟨11⟩) .idle = (.ok (.enum ⟨2⟩), .idle) := by
  intro c
  obtain ⟨hvariant, hstray, hfn⟩ := kind?_callables
  obtain ⟨hpath, hcall, hstruct, hstrayPath⟩ := makes_callables
  obtain ⟨hfnCall, hmethodCall⟩ := calls_callables
  obtain ⟨henum, hunknown⟩ := variantHas_callables
  have h := uses_agree callables_built callablesNames.resolver .standard .structural
  obtain ⟨ty, hty, hself, hmade⟩ := h.1 ⟨0⟩ _ _ hvariant
  obtain ⟨ty', hty', -, hmade'⟩ := h.1 ⟨12⟩ _ _ hstray
  obtain ⟨params, ret, hsig, hcalled⟩ := h.2 ⟨4⟩ _ _ _ hfn rfl derives_callables
  cases hty.unique henum
  cases hty'.unique hunknown
  cases hsig.symm.trans answer_callables
  exact ⟨callables_built, hself, hmade _ hpath, hmade _ hcall, hmade _ hstruct,
    hmade' _ hstrayPath, hcalled _ hfnCall, hcalled _ hmethodCall⟩

end TypeDerivation
