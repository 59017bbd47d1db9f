import TypeDerivation.Proofs.Engine.Destructuring
import TypeDerivation.Proofs.Tree.Walk

/-!
Patterns that take apart what an expression puts together. Each name in such a pattern has the type
of the part of the expression that it stands against.
-/

namespace TypeDerivation

open TypeDerivation.Derivation

/-- A pattern with no pattern inside it. -/
def NodeKind.isPlainPat : NodeKind → Bool
  | pat (.binding _ _ _ none) | pat .wild | pat (.path _) | pat (.lit _) => true
  | _ => false

namespace SyntaxTree

section

variable (t : SyntaxTree)

/-- The pattern takes the expression apart the way it was put together, as far down as the pattern
goes. -/
inductive Undoes : NodeId → NodeId → Prop where
  | plain {p e : NodeId} : t.holds NodeKind.isPlainPat p = true → Undoes p e
  | sub {p q e : NodeId} {name : Name} {byRef mutable : Bool} :
    t.kind? p = some (.pat (.binding name byRef mutable (some q))) → Undoes q e → Undoes p e
  | tuple {p e : NodeId} {qs xs : List NodeId} : t.kind? p = some (.pat (.tuple qs)) →
    t.kind? e = some (.expr (.tuple xs)) → qs.length = xs.length →
    (∀ (i : Nat) q x, qs[i]? = some q → xs[i]? = some x → Undoes q x) → Undoes p e
  | ref {p q e x : NodeId} {m m' : Bool} : t.kind? p = some (.pat (.ref q m)) →
    t.kind? e = some (.expr (.unary (.ref m') (some x))) → Undoes q x → Undoes p e

/-- Where the pattern `p` stands against the expression `e`, a part of the one stands against a part
of the other. -/
inductive Faces (p e : NodeId) : NodeId → NodeId → Prop where
  | top : Faces p e p e
  | sub {q r x : NodeId} {name : Name} {byRef mutable : Bool} : Faces p e q x →
    t.kind? q = some (.pat (.binding name byRef mutable (some r))) → Faces p e r x
  | entry {q r x y : NodeId} {qs xs : List NodeId} {i : Nat} : Faces p e q x →
    t.kind? q = some (.pat (.tuple qs)) → t.kind? x = some (.expr (.tuple xs)) →
    qs[i]? = some r → xs[i]? = some y → Faces p e r y
  | referent {q r x y : NodeId} {m m' : Bool} : Faces p e q x →
    t.kind? q = some (.pat (.ref r m)) → t.kind? x = some (.expr (.unary (.ref m') (some y))) →
    Faces p e r y

end

variable {t : SyntaxTree} {p q r e x : NodeId}

namespace Undoes

theorem isPlainPat {kind : NodeKind} (hk : t.kind? p = some kind)
    (h : t.holds NodeKind.isPlainPat p = true) : kind.isPlainPat = true := by
  rwa [holds, hk] at h

theorem of_sub {name : Name} {byRef mutable : Bool}
    (hk : t.kind? p = some (.pat (.binding name byRef mutable (some q)))) (h : t.Undoes p e) :
    t.Undoes q e := by
  cases h with
  | plain h => cases isPlainPat hk h
  | sub hk' h =>
    cases hk.symm.trans hk'
    exact h
  | tuple hk' | ref hk' => cases hk.symm.trans hk'

theorem of_tuple {qs xs : List NodeId} (hk : t.kind? p = some (.pat (.tuple qs)))
    (hx : t.kind? e = some (.expr (.tuple xs))) (h : t.Undoes p e) : qs.length = xs.length ∧
      ∀ (i : Nat) q x, qs[i]? = some q → xs[i]? = some x → t.Undoes q x := by
  cases h with
  | plain h => cases isPlainPat hk h
  | sub hk' | ref hk' => cases hk.symm.trans hk'
  | tuple hk' hx' hlen h =>
    cases hk.symm.trans hk'
    cases hx.symm.trans hx'
    exact ⟨hlen, h⟩

theorem of_ref {m m' : Bool} (hk : t.kind? p = some (.pat (.ref q m)))
    (hx : t.kind? e = some (.expr (.unary (.ref m') (some x)))) (h : t.Undoes p e) :
    t.Undoes q x := by
  cases h with
  | plain h => cases isPlainPat hk h
  | sub hk' | tuple hk' => cases hk.symm.trans hk'
  | ref hk' hx' h =>
    cases hk.symm.trans hk'
    cases hx.symm.trans hx'
    exact h

end Undoes

theorem Faces.undoes (h : t.Faces p e q x) (hp : t.Undoes p e) : t.Undoes q x := by
  induction h with
  | top => exact hp
  | sub _ hk ih => exact ih.of_sub hk
  | entry _ hk hx hr hy ih => exact (ih.of_tuple hk hx).2 _ _ _ hr hy
  | referent _ hk hx ih => exact ih.of_ref hk hx

theorem Undoes.exists_faces_child (hp : t.Undoes q x) (h : t.Faces p e q x)
    (hr : r ∈ t.children q) : ∃ y, t.Faces p e r y := by
  obtain ⟨kind, hkind, hr⟩ := mem_children_iff_kind?.mp hr
  cases hp with
  | plain hplain =>
    have hplain := isPlainPat hkind hplain
    cases kind with
    | pat k => cases k <;> simp_all [NodeKind.isPlainPat, NodeKind.children, Pat.children]
    | _ => cases hplain
  | sub hk =>
    cases hkind.symm.trans hk
    obtain rfl : r = _ := by simpa [NodeKind.children, Pat.children] using hr
    exact ⟨x, h.sub hk⟩
  | tuple hk hx hlen _ =>
    cases hkind.symm.trans hk
    obtain ⟨i, hi, rfl⟩ := List.getElem_of_mem hr
    exact ⟨_, h.entry hk hx (List.getElem?_eq_getElem hi) (List.getElem?_eq_getElem (hlen ▸ hi))⟩
  | ref hk hx _ =>
    cases hkind.symm.trans hk
    obtain rfl : r = _ := by simpa [NodeKind.children, Pat.children] using hr
    exact ⟨_, h.referent hk hx⟩

/-- Every node below the pattern stands against a part of the expression. -/
theorem Undoes.exists_faces (ha : t.Agreeing) (hp : t.Undoes p e) (h : t.Under q p) :
    ∃ x, t.Faces p e q x := by
  induction h using Relation.ReflTransGen.head_induction_on with
  | refl => exact ⟨e, .top⟩
  | head hparent _ ih =>
    obtain ⟨x, hx⟩ := ih
    exact (hx.undoes hp).exists_faces_child hx (ha.mem_children_iff.mpr hparent)

end SyntaxTree

namespace Context

variable {c : Context} {reply : Replies} {p q e x y b top stmt pat init : NodeId} {ty start : Ty}
  {n : Nat} {v : View}

theorem derived_tuple {xs : List NodeId} (hk : c.tree.kind? x = some (.expr (.tuple xs)))
    (h : c.derived n (.expr x) = .ok ty) : ∃ tys, ty = .ofElems tys ∧
      List.Forall₂ (fun y ty => c.derived n (.expr y) = .ok ty) xs tys := by
  cases n with
  | zero => cases h
  | succ n =>
    rw [derived, rule_of_expr hk, exprTypeOf, outcome_map_ok_iff] at h
    obtain ⟨tys, htys, rfl⟩ := h
    refine ⟨tys, rfl, (outcome_forEach_ok_iff.mp htys).imp ?_⟩
    intro y ty h
    rw [exprType, outcome_request] at h
    exact derived_mono h (Nat.le_succ n)

theorem derived_borrow {m : Bool} (hk : c.tree.kind? x = some (.expr (.unary (.ref m) (some y))))
    (h : c.derived n (.expr x) = .ok ty) :
    ∃ inner, ty = .ref inner m ∧ c.derived n (.expr y) = .ok inner := by
  cases n with
  | zero => cases h
  | succ n =>
    rw [derived, rule_of_expr hk, exprTypeOf, unaryType, outcome_map_ok_iff] at h
    obtain ⟨inner, hinner, rfl⟩ := h
    rw [exprType, outcome_request] at hinner
    exact ⟨inner, rfl, derived_mono hinner (Nat.le_succ n)⟩

theorem Reaches.encloses (h : c.Reaches reply top start q v) : c.tree.Encloses top q := by
  induction h with
  | top => exact .refl
  | step _ henters ih => exact .head henters.inside ih

/-- What a part of the expression has is what a reading of the pattern comes to there. -/
theorem reaches_of_faces (hundoes : c.tree.Undoes p e) (he : c.derived n (.expr e) = .ok ty)
    (h : c.tree.Faces p e q x) : ∃ ty', c.derived n (.expr x) = .ok ty' ∧
      c.Reaches (c.derived n) p ty q ⟨ty', []⟩ := by
  induction h with
  | top => exact ⟨ty, he, .top⟩
  | sub _ hk ih =>
    obtain ⟨ty', hty', hreach⟩ := ih
    exact ⟨ty', hty', hreach.step (.sub hk)⟩
  | @entry q r x y qs xs i hfaces hk hx hr hy ih =>
    obtain ⟨ty', hty', hreach⟩ := ih
    obtain ⟨tys, rfl, hentries⟩ := derived_tuple hx hty'
    obtain ⟨hlen, -⟩ := (hfaces.undoes hundoes).of_tuple hk hx
    obtain ⟨hi, rfl⟩ := List.getElem?_eq_some_iff.mp hy
    have hi' : i < tys.length := hentries.length_eq ▸ hi
    rw [Ty.ofElems_of_ne_nil (List.ne_nil_of_length_pos (Nat.zero_lt_of_lt hi'))] at hreach
    exact ⟨tys[i], hentries.get hi hi', hreach.step (.tuple hk rfl
      (hentries.length_eq.symm.trans hlen.symm) hr (List.getElem?_eq_getElem hi'))⟩
  | referent _ hk hx ih =>
    obtain ⟨ty', hty', hreach⟩ := ih
    obtain ⟨inner, rfl, hinner⟩ := derived_borrow hx hty'
    exact ⟨inner, hinner, hreach.step (.ref hk)⟩

theorem outcome_bindingType_of_reaches (ht : c.tree.Ordered) (ha : c.tree.Agreeing)
    (hi : c.inference = .structural) {name : Name} {byRef mutable : Bool} {sub : Option NodeId}
    (hk : c.tree.kind? b = some (.pat (.binding name byRef mutable sub)))
    (htop : c.tree.Outermost top b)
    (hn : ∀ pat, c.tree.Encloses pat b → (c.tree.children pat).Nodup) {o : Origin}
    (ho : c.tree.Contributes top o) (hstart : o.type.outcome reply = .ok start)
    (h : c.Reaches reply top start b v) :
    (c.bindingType b).outcome reply = .ok (v.bound byRef mutable) := by
  have hway : (c.descendAll (c.tree.wayDown b) ⟨start, none⟩).outcome reply =
      .ok (some v.place) := (descendAll_eq_some_iff ht ha htop hn).mpr ⟨v, h, rfl⟩
  have hinfer : (c.inferStructural b top start).outcome reply = .ok (v.bound byRef mutable) := by
    rw [inferStructural_eq ht ha htop (.inl rfl)]
    exact outcome_bind_ok_iff.mpr ⟨some v.place, hway, outcome_bindingAt v hk⟩
  rw [bindingType, htop.eq_topPat ht ha, (SyntaxTree.origin?_eq_some_iff ha).mpr ho, hi]
  exact outcome_bind_ok_iff.mpr ⟨start, hstart, hinfer⟩

end Context

/-- A let without a written type, whose pattern takes apart what its value puts together and whose
value can be worked out: every name in the pattern stands against a part of the value and has the
type of that part, behind a reference if the name takes one. -/
theorem destructuring_undoes_construction {t : SyntaxTree} (ht : t.Built)
    (hn : ∀ id, (t.children id).Nodup) (R : Resolver) (s : Settings) {owner pat value : NodeId}
    {ty : Ty} (hk : t.kind? owner = some (.stmt (.bind (some pat) none (some value))))
    (hundoes : t.Undoes pat value) :
    let c : Context := ⟨t, R, { s with maxDepth := none }, .structural⟩
    c.Derives (.expr value) ty →
    ∀ id name byRef mutable sub, t.Under id pat →
      t.kind? id = some (.pat (.binding name byRef mutable sub)) →
      (∃ x, t.Faces pat value id x) ∧
      ∀ x, t.Faces pat value id x → ∃ ty, c.answerQuery (.expr x) .idle = (.ok ty, .idle) ∧
        c.answerQuery (.entity id) .idle =
          (.ok (if byRef then .ref ty mutable else ty), .idle) := by
  intro c hty id name byRef mutable sub hid hbinding
  have ho : c.tree.Ordered := ht.ordered
  have ha : c.tree.Agreeing := ht.agreeing
  refine ⟨hundoes.exists_faces ha hid, ?_⟩
  intro x hx
  obtain ⟨height, hty⟩ := hty
  obtain ⟨part, hpart, hreach⟩ := Context.reaches_of_faces (c := c) hundoes hty hx
  have hlisted : pat ∈ (NodeKind.stmt (.bind (some pat) none (some value))).children := by
    simp [NodeKind.children, Stmt.children]
  have houter : t.Outermost pat id :=
    ⟨hreach.encloses, SyntaxTree.not_inside_of_kind? ha hk hlisted rfl⟩
  have htype : (Origin.expr value).type.outcome (c.derived height) = .ok ty := by
    rw [Origin.type, exprType, outcome_request, hty]
  have hname : c.Derives (.entity id) (View.bound ⟨part, []⟩ byRef mutable) := by
    refine Context.derives_iff.mpr ⟨height, ?_⟩
    rw [Context.rule_of_binding hbinding]
    exact Context.outcome_bindingType_of_reaches ho ha rfl hbinding houter (fun pat _ => hn pat)
      (.initialized hk) htype hreach
  have hbound : View.bound ⟨part, []⟩ byRef mutable = if byRef then .ref part mutable else part := by
    cases byRef <;> rfl
  refine ⟨part, ?_, ?_⟩
  · exact Context.answerQuery_of_derives (r := .expr x) ho rfl rfl (fun h => h) ⟨height, hpart⟩
  · rw [← hbound]
    exact Context.answerQuery_of_derives (r := .entity id) ho rfl rfl (fun h => h) hname

/-- `let (a @ &(ref mut b, _), c) = (&(1, true), ());` -/
def mirroredLet : SyntaxTree :=
  .afterSteps .empty [.shorthand (.lit .int "1"), .shorthand (.boolLit true),
    .node (.expr (.tuple [⟨0⟩, ⟨1⟩])), .node (.expr (.unary (.ref false) (some ⟨2⟩))),
    .node (.expr .unit), .node (.expr (.tuple [⟨3⟩, ⟨4⟩])), .intern "a", .intern "b", .intern "c",
    .node (.pat (.binding ⟨9⟩ true true none)), .node (.pat .wild),
    .node (.pat (.tuple [⟨6⟩, ⟨7⟩])), .node (.pat (.ref ⟨8⟩ false)),
    .node (.pat (.binding ⟨8⟩ false false (some ⟨9⟩))), .node (.pat (.binding ⟨10⟩ false false none)),
    .node (.pat (.tuple [⟨10⟩, ⟨11⟩])), .node (.stmt (.bind (some ⟨12⟩) none (some ⟨5⟩)))]

theorem mirroredLet_built : mirroredLet.Built := ⟨_, rfl⟩

def mirroredLetContext : Context := ⟨mirroredLet, .none, .standard, .structural⟩

set_option maxRecDepth 4096 in
theorem nodup_mirroredLet (id : NodeId) : (mirroredLet.children id).Nodup := by
  have hlists : (mirroredLet.ids.flatMap mirroredLet.children).Nodup := by decide
  exact (SyntaxTree.nodup_child_lists_iff mirroredLet_built.agreeing).mp hlists id

set_option maxRecDepth 4096 in
theorem kind?_mirroredLet :
    mirroredLet.kind? ⟨6⟩ = some (.pat (.binding ⟨9⟩ true true none)) ∧
    mirroredLet.kind? ⟨8⟩ = some (.pat (.tuple [⟨6⟩, ⟨7⟩])) ∧
    mirroredLet.kind? ⟨9⟩ = some (.pat (.ref ⟨8⟩ false)) ∧
    mirroredLet.kind? ⟨10⟩ = some (.pat (.binding ⟨8⟩ false false (some ⟨9⟩))) ∧
    mirroredLet.kind? ⟨12⟩ = some (.pat (.tuple [⟨10⟩, ⟨11⟩])) ∧
    mirroredLet.kind? ⟨13⟩ = some (.stmt (.bind (some ⟨12⟩) none (some ⟨5⟩))) :=
  ⟨rfl, rfl, rfl, rfl, rfl, rfl⟩

set_option maxRecDepth 4096 in
theorem kind?_mirroredLet_value :
    mirroredLet.kind? ⟨2⟩ = some (.expr (.tuple [⟨0⟩, ⟨1⟩])) ∧
    mirroredLet.kind? ⟨3⟩ = some (.expr (.unary (.ref false) (some ⟨2⟩))) ∧
    mirroredLet.kind? ⟨5⟩ = some (.expr (.tuple [⟨3⟩, ⟨4⟩])) := ⟨rfl, rfl, rfl⟩

set_option maxRecDepth 4096 in
theorem under_mirroredLet : mirroredLet.Under ⟨6⟩ ⟨12⟩ ∧ mirroredLet.Under ⟨10⟩ ⟨12⟩ := by
  have hstep {child parent : NodeId} (hp : mirroredLet.parent? child = some parent)
      (h : mirroredLet.Under parent ⟨12⟩) : mirroredLet.Under child ⟨12⟩ := .head hp h
  have hname : mirroredLet.Under ⟨10⟩ ⟨12⟩ := hstep rfl .refl
  exact ⟨hstep rfl (hstep rfl (hstep rfl hname)), hname⟩

set_option maxRecDepth 4096 in
theorem derives_mirroredLet : mirroredLetContext.Derives (.expr ⟨5⟩)
    (.tuple [.ref (.tuple [.int .i32, .bool]) false, .unit]) := ⟨4, rfl⟩

set_option maxRecDepth 4096 in
theorem undoes_mirroredLet : mirroredLet.Undoes ⟨12⟩ ⟨5⟩ := by
  obtain ⟨hb, hpair, href, ha, htuple, -⟩ := kind?_mirroredLet
  obtain ⟨hpair', href', htuple'⟩ := kind?_mirroredLet_value
  have hinner : mirroredLet.Undoes ⟨8⟩ ⟨2⟩ := by
    refine .tuple hpair hpair' rfl ?_
    intro i q x hq hx
    match i with
    | 0 | 1 =>
      cases hq
      exact .plain rfl
    | i + 2 => cases hq
  refine .tuple htuple htuple' rfl ?_
  intro i q x hq hx
  match i with
  | 0 =>
    cases hq
    cases hx
    exact .sub ha (.ref href href' hinner)
  | 1 =>
    cases hq
    exact .plain rfl
  | i + 2 => cases hq

theorem faces_mirroredLet : mirroredLet.Faces ⟨12⟩ ⟨5⟩ ⟨10⟩ ⟨3⟩ ∧
    mirroredLet.Faces ⟨12⟩ ⟨5⟩ ⟨6⟩ ⟨0⟩ := by
  obtain ⟨hb, hpair, href, ha, htuple, -⟩ := kind?_mirroredLet
  obtain ⟨hpair', href', htuple'⟩ := kind?_mirroredLet_value
  have hname : mirroredLet.Faces ⟨12⟩ ⟨5⟩ ⟨10⟩ ⟨3⟩ :=
    SyntaxTree.Faces.top.entry (i := 0) htuple htuple' rfl rfl
  exact ⟨hname, ((hname.sub ha).referent href href').entry (i := 0) hpair hpair' rfl rfl⟩

set_option maxRecDepth 4096 in
theorem answer_mirroredLet :
    mirroredLetContext.answerQuery (.expr ⟨3⟩) .idle =
      (.ok (.ref (.tuple [.int .i32, .bool]) false), .idle) ∧
    mirroredLetContext.answerQuery (.expr ⟨0⟩) .idle = (.ok (.int .i32), .idle) := ⟨rfl, rfl⟩

theorem destructuring_undoes_construction_mirroredLet :
    let c := mirroredLetContext
    mirroredLet.Built ∧ (∀ id, (mirroredLet.children id).Nodup) ∧ mirroredLet.Undoes ⟨12⟩ ⟨5⟩ ∧
      c.answerQuery (.entity ⟨10⟩) .idle =
        (.ok (.ref (.tuple [.int .i32, .bool]) false), .idle) ∧
      c.answerQuery (.entity ⟨6⟩) .idle = (.ok (.ref (.int .i32) true), .idle) := by
  intro c
  obtain ⟨hb, -, -, ha, -, hlet⟩ := kind?_mirroredLet
  obtain ⟨hunder, hunder'⟩ := under_mirroredLet
  obtain ⟨hfaces, hfaces'⟩ := faces_mirroredLet
  obtain ⟨hanswer, hanswer'⟩ := answer_mirroredLet
  have h := destructuring_undoes_construction mirroredLet_built nodup_mirroredLet .none .standard
    hlet undoes_mirroredLet derives_mirroredLet
  obtain ⟨ty, hty, houter⟩ := (h ⟨10⟩ _ _ _ _ hunder' ha).2 ⟨3⟩ hfaces
  obtain ⟨ty', hty', hinner⟩ := (h ⟨6⟩ _ _ _ _ hunder hb).2 ⟨0⟩ hfaces'
  cases hty.symm.trans hanswer
  cases hty'.symm.trans hanswer'
  exact ⟨mirroredLet_built, nodup_mirroredLet, undoes_mirroredLet, houter, hinner⟩

end TypeDerivation
