import TypeDerivation.Proofs.Engine.Destructuring
import TypeDerivation.Proofs.Engine.Receiver

/-!
The type of a function and the types inside it: what the function takes is what its receiver and
the names of its parameters have in its body.
-/

namespace TypeDerivation

open TypeDerivation.Derivation

/-- A bare `self` that is not recorded stands for the receiver of the function around it. -/
theorem ResolvedNames.reference?_self (names : ResolvedNames) {t : SyntaxTree} {id fn : NodeId}
    {kind : NodeKind} {sig : Signature}
    (he : t.kind? id = some (.expr (.path ⟨.selfValue, []⟩)))
    (href : names.references[id.index]? = none)
    (hfn : t.enclosing? NodeKind.hasSignature id = some fn) (hk : t.kind? fn = some kind)
    (hsig : kind.signature? = some sig) : names.reference? t id = sig.selfParam := by
  have hspelled : t.spelledPath? id = some ⟨.selfValue, []⟩ := by
    rw [SyntaxTree.spelledPath?, he]
  have hreceiver : t.receiverAt? id = sig.selfParam := by
    simp [SyntaxTree.receiverAt?, hfn, hk, hsig]
  rw [reference?, href, hspelled]
  exact hreceiver

namespace Context

/-- A parameter is taken with the type: the type is what is written, and what the name of the
parameter has. -/
structure Takes (c : Context) (param : NodeId) (ty : Ty) : Prop where
  denoted : ∀ {pat written : Option NodeId},
    c.tree.kind? param = some (.decl (.param pat written)) →
    written.elim (.ok .unknown) (fun x => (c.answerQuery (.typeExpr x) .idle).1) = .ok ty
  bound : ∀ {binding : NodeId} {written sub : Option NodeId} {name : Name} {mutable : Bool},
    c.tree.kind? param = some (.decl (.param (some binding) written)) →
    c.tree.kind? binding = some (.pat (.binding name false mutable sub)) →
    c.answerQuery (.entity binding) .idle = (.ok ty, .idle)

variable {c : Context} {id param binding : NodeId} {kind : NodeKind} {sig : Signature}
  {written sub : Option NodeId} {name : Name} {mutable : Bool} {ty : Ty}

theorem fnType_of_signature (hk : c.tree.kind? id = some kind) (hsig : kind.signature? = some sig) :
    c.fnType id = c.signatureType sig := by
  rw [fnType, kind_bind hk]
  simp only [hsig]

theorem rule_of_signature (hk : c.tree.kind? id = some kind) (hsig : kind.signature? = some sig) :
    c.rule (.entity id) = c.signatureType sig := by
  rw [rule, entityRule, kind_bind hk, ← fnType_of_signature hk hsig]
  cases kind with
  | item i =>
    cases i with
    | fn => rfl
    | _ => cases hsig
  | decl d =>
    cases d with
    | method => rfl
    | _ => cases hsig
  | _ => cases hsig

section

variable (ht : c.tree.Ordered)
include ht

/-- The pattern of a parameter is outermost, so a binding there has what the parameter has. -/
theorem rule_of_param_binding (ha : c.tree.Agreeing) (hinf : c.inference = .structural)
    (hk : c.tree.kind? param = some (.decl (.param (some binding) written)))
    (hb : c.tree.kind? binding = some (.pat (.binding name false mutable sub))) :
    c.rule (.entity binding) = c.paramType param := by
  have hlisted : binding ∈ (NodeKind.decl (.param (some binding) written)).children := by
    simp [NodeKind.children, Decl.children]
  have houter : c.tree.Outermost binding binding :=
    ⟨.refl, SyntaxTree.not_inside_of_kind? ha hk hlisted rfl⟩
  have horigin : c.tree.origin? binding = some (written.elim .unstated .typeExpr) :=
    (SyntaxTree.origin?_eq_some_iff ha).mpr (.param hk)
  have hinfer (ty : Ty) : c.infer c.inference binding binding ty = .done ty := by
    rw [hinf, infer, inferStructural_eq ht ha houter (.inl rfl), houter.wayDown_top ht ha]
    change c.bindingAt binding ⟨ty, none⟩ = .done ty
    rw [bindingAt, kind_bind hb]
    rfl
  have htype : (written.elim .unstated Origin.typeExpr).type = denotedOr .unknown written := by
    cases written <;> rfl
  rw [rule_of_binding hb, bindingType, houter.eq_topPat ht ha, horigin, paramType, kind_bind hk]
  simp only [hinfer, htype]
  exact bind_done _

variable (hmax : c.settings.maxDepth = none)
include hmax

theorem takes_of_derives (ha : c.tree.Agreeing) (hinf : c.inference = .structural) {height : Nat}
    (h : (c.paramType param).outcome (c.derived height) = .ok ty) : c.Takes param ty where
  denoted {pat written} hk := by
    rw [paramType, kind_bind hk, outcome_denotedOr] at h
    cases written with
    | none => exact h
    | some x =>
      rw [Option.elim_some,
        answerQuery_of_derives (r := .typeExpr x) ht hmax rfl (fun hx => hx) ⟨height, h⟩]
  bound {binding written sub name mutable} hk hb := by
    rw [← rule_of_param_binding ht ha hinf hk hb] at h
    exact answerQuery_of_derives ht hmax rfl (fun hx => hx) (derives_iff.mpr ⟨height, h⟩)

theorem answers_receiver_of_derives {byRef : Bool} {height : Nat}
    (hk : c.tree.kind? param = some (.decl (.selfParam byRef mutable)))
    (h : (c.receiverType param).outcome (c.derived height) = .ok ty) :
    c.answers .idle (.entity param) = .ok ty := by
  have hparam : (Request.entity param).Proper c.tree := SyntaxTree.lt_of_kind? hk
  rw [← rule_of_receiver hk] at h
  exact answers_of_derives ht hmax hparam (derives_iff.mpr ⟨height, h⟩)

theorem answers_self {names : ResolvedNames} (hR : c.resolver = names.resolver)
    (he : c.tree.kind? id = some (.expr (.path ⟨.selfValue, []⟩)))
    (href : names.references[id.index]? = none) {fn : NodeId}
    (hfn : c.tree.enclosing? NodeKind.hasSignature id = some fn)
    (hk : c.tree.kind? fn = some kind) (hsig : kind.signature? = some sig) :
    c.answers .idle (.expr id) =
      sig.selfParam.elim (.ok .unknown) fun x => c.answers .idle (.entity x) := by
  have hdecl : c.declOf? id = sig.selfParam := by
    rw [declOf?, hR]
    exact names.reference?_self he href hfn hk hsig
  rw [answers_expr ht hmax, exprRule, kind_bind he]
  change (c.pathType id).outcome _ = _
  rw [pathType, hdecl]
  cases sig.selfParam with
  | none => rfl
  | some x => exact outcome_request _

end

end Context

/-- Where the type of a function can be worked out, it takes the type of its receiver and then one
type for each parameter. A parameter that is a plain binding has that type as a name, and a bare
`self` in the function has the type of the receiver. -/
theorem signature_agrees_with_body {t : SyntaxTree} (ht : t.Built) (names : ResolvedNames)
    (s : Settings) {fn : NodeId} {kind : NodeKind} {sig : Signature} {ty : Ty}
    (hk : t.kind? fn = some kind) (hsig : kind.signature? = some sig)
    (hself : ∀ x ∈ sig.selfParam, ∃ byRef mutable,
      t.kind? x = some (.decl (.selfParam byRef mutable))) :
    let c : Context := ⟨t, names.resolver, { s with maxDepth := none }, .structural⟩
    c.Derives (.entity fn) ty →
    ∃ receiver params ret,
      c.answerQuery (.entity fn) .idle = (.ok (.fn (receiver ++ params) ret), .idle) ∧
      List.Forall₂ (fun x ty => c.answerQuery (.entity x) .idle = (.ok ty, .idle))
        sig.selfParam.toList receiver ∧
      List.Forall₂ c.Takes sig.params params ∧
      ∀ id, t.kind? id = some (.expr (.path ⟨.selfValue, []⟩)) →
        names.references[id.index]? = none → t.enclosing? NodeKind.hasSignature id = some fn →
        c.answerQuery (.expr id) .idle =
          sig.selfParam.elim (.ok .unknown, .idle) fun x => c.answerQuery (.entity x) .idle := by
  intro c hty
  have ho : c.tree.Ordered := ht.ordered
  have hfn : (Request.entity fn).Proper c.tree := SyntaxTree.lt_of_kind? hk
  have hanswer := Context.answers_of_derives ho rfl hfn hty
  -- each part of the signature is derived one request lower, as the node that it belongs to is
  obtain ⟨height, hty⟩ := Context.derives_iff.mp hty
  rw [Context.rule_of_signature hk hsig, Context.signatureType] at hty
  obtain ⟨receiver, hreceiver, hty⟩ := outcome_bind_ok_iff.mp hty
  obtain ⟨params, hparams, hty⟩ := outcome_bind_ok_iff.mp hty
  obtain ⟨ret, -, hty⟩ := outcome_bind_ok_iff.mp hty
  cases hty
  refine ⟨receiver, params, ret, ?_, ?_, ?_, ?_⟩
  · rw [Context.answerQuery_eq (q := .entity fn) rfl, hanswer]
  · have hone := outcome_forEach_ok_iff.mp hreceiver
    cases hp : sig.selfParam with
    | none =>
      rw [hp] at hone
      cases hone
      exact .nil
    | some x =>
      rw [hp] at hone
      obtain ⟨byRef, mutable, hx⟩ := hself x hp
      cases hone with
      | cons h hrest =>
        cases hrest
        refine .cons ?_ .nil
        rw [Context.answerQuery_eq (q := .entity x) rfl,
          Context.answers_receiver_of_derives ho rfl hx h]
  · apply (outcome_forEach_ok_iff.mp hparams).imp
    intro param entry h
    exact Context.takes_of_derives ho rfl ht.agreeing rfl h
  · intro id he href henclosing
    rw [Context.answerQuery_eq (q := .expr id) rfl,
      Context.answers_self ho rfl rfl he href henclosing hk hsig]
    cases sig.selfParam with
    | none => rfl
    | some x => rw [Option.elim_some, Option.elim_some, Context.answerQuery_eq (q := .entity x) rfl]

/-- A method with a receiver and two parameters, one of them without a type. Its body is a closure
around `self`. -/
def selfMethod : SyntaxTree :=
  .afterSteps .empty [.intern "S", .intern "m", .intern "x", .intern "y", .intern "bool",
    .node (.item (.struct ⟨7⟩ [] [])), .node (.decl (.selfParam true false)), .node (.pat .wild),
    .node (.pat (.binding ⟨9⟩ false false (some ⟨2⟩))), .node (.typeExpr (.path (.single ⟨7⟩))),
    .node (.decl (.param (some ⟨3⟩) (some ⟨4⟩))), .node (.pat (.binding ⟨10⟩ false true none)),
    .node (.decl (.param (some ⟨6⟩) none)), .node (.expr (.path ⟨.selfValue, []⟩)),
    .node (.expr (.closure [] none (some ⟨8⟩))), .node (.block [] (some ⟨9⟩)),
    .node (.expr (.block (some ⟨10⟩))), .node (.typeExpr (.path (.single ⟨11⟩))),
    .node (.decl (.method ⟨8⟩ ⟨[], some ⟨1⟩, [⟨5⟩, ⟨7⟩], some ⟨12⟩, some ⟨11⟩⟩)),
    .node (.typeExpr (.path (.single ⟨7⟩))), .node (.item (.impl [] none (some ⟨14⟩) [⟨13⟩]))]

theorem selfMethod_built : selfMethod.Built := ⟨_, rfl⟩

def selfMethodNames : ResolvedNames := ResolvedNames.empty.bindPath "S" ⟨0⟩

def selfMethodContext : Context := ⟨selfMethod, selfMethodNames.resolver, .standard, .structural⟩

set_option maxRecDepth 4096 in
theorem kind?_selfMethod : selfMethod.kind? ⟨1⟩ = some (.decl (.selfParam true false)) ∧
    selfMethod.kind? ⟨8⟩ = some (.expr (.path ⟨.selfValue, []⟩)) ∧
    selfMethod.kind? ⟨13⟩ =
      some (.decl (.method ⟨8⟩ ⟨[], some ⟨1⟩, [⟨5⟩, ⟨7⟩], some ⟨12⟩, some ⟨11⟩⟩)) :=
  ⟨rfl, rfl, rfl⟩

set_option maxRecDepth 4096 in
theorem kind?_selfMethod_params : let t := selfMethodContext.tree
    t.kind? ⟨5⟩ = some (.decl (.param (some ⟨3⟩) (some ⟨4⟩))) ∧
      t.kind? ⟨3⟩ = some (.pat (.binding ⟨9⟩ false false (some ⟨2⟩))) ∧
      t.kind? ⟨7⟩ = some (.decl (.param (some ⟨6⟩) none)) ∧
      t.kind? ⟨6⟩ = some (.pat (.binding ⟨10⟩ false true none)) := ⟨rfl, rfl, rfl, rfl⟩

set_option maxRecDepth 4096 in
theorem enclosing?_selfMethod :
    selfMethod.enclosing? NodeKind.hasSignature ⟨8⟩ = some ⟨13⟩ := rfl

set_option maxRecDepth 4096 in
theorem derives_selfMethod : selfMethodContext.Derives (.entity ⟨13⟩)
    (.fn [.ref (.struct ⟨0⟩) false, .struct ⟨0⟩, .unknown] .bool) :=
  ⟨3, rfl⟩

set_option maxRecDepth 4096 in
theorem answer_selfMethod : selfMethodContext.answerQuery (.entity ⟨13⟩) .idle =
    (.ok (.fn [.ref (.struct ⟨0⟩) false, .struct ⟨0⟩, .unknown] .bool), .idle) := rfl

theorem signature_agrees_with_body_selfMethod :
    let c := selfMethodContext
    selfMethod.Built ∧ c.answerQuery (.entity ⟨13⟩) .idle =
        (.ok (.fn [.ref (.struct ⟨0⟩) false, .struct ⟨0⟩, .unknown] .bool), .idle) ∧
      c.answerQuery (.entity ⟨1⟩) .idle = (.ok (.ref (.struct ⟨0⟩) false), .idle) ∧
      c.answerQuery (.entity ⟨3⟩) .idle = (.ok (.struct ⟨0⟩), .idle) ∧
      c.answerQuery (.entity ⟨6⟩) .idle = (.ok .unknown, .idle) ∧
      c.answerQuery (.expr ⟨8⟩) .idle = (.ok (.ref (.struct ⟨0⟩) false), .idle) := by
  intro c
  obtain ⟨hself, hpath, hfn⟩ := kind?_selfMethod
  obtain ⟨hparam, hbinding, hparam', hbinding'⟩ := kind?_selfMethod_params
  have hreceiver (x : NodeId) (hx : x ∈ some (⟨1⟩ : NodeId)) :
      ∃ byRef mutable, selfMethod.kind? x = some (.decl (.selfParam byRef mutable)) := by
    cases hx
    exact ⟨true, false, hself⟩
  obtain ⟨receiver, params, ret, hanswer, hrs, hps, hbody⟩ := signature_agrees_with_body
    selfMethod_built selfMethodNames .standard hfn rfl hreceiver derives_selfMethod
  have htaken : receiver ++ params = [.ref (.struct ⟨0⟩) false, .struct ⟨0⟩, .unknown] := by
    have h := hanswer.symm.trans answer_selfMethod
    simp only [Prod.mk.injEq, Except.ok.injEq, Ty.fn.injEq] at h
    exact h.1.1
  cases hrs with
  | cons hr hnil =>
    cases hnil
    cases hps with
    | cons hx hrest =>
      cases hrest with
      | cons hy hnil =>
        cases hnil
        cases htaken
        have href : selfMethodNames.references[(⟨8⟩ : NodeId).index]? = none := rfl
        have hx : c.Takes ⟨5⟩ (.struct ⟨0⟩) := hx
        have hy : c.Takes ⟨7⟩ .unknown := hy
        have hsame := hbody ⟨8⟩ hpath href enclosing?_selfMethod
        simp only [Option.elim_some] at hsame
        exact ⟨selfMethod_built, answer_selfMethod, hr, hx.bound hparam hbinding,
          hy.bound hparam' hbinding', hsame.trans hr⟩

end TypeDerivation
