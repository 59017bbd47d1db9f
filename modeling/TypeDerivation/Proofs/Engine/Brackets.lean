import TypeDerivation.Proofs.Derivation.Descent
import TypeDerivation.Proofs.Engine.Answers

/-!
Expressions that are equal up to brackets. A rule that asks for the type of a part does not see the
brackets around it; the one rule that looks at a part itself is that of a call, which knows a variant
by the path that names it.
-/

namespace TypeDerivation

namespace Expr

/-- One form, of which the rules look at no part. -/
inductive SameLeaf : Expr → Expr → Prop where
  | lit (l : Literal) : SameLeaf (.lit l) (.lit l)
  | unit : SameLeaf .unit .unit
  | noOperand (op : UnaryOp) : SameLeaf (.unary op none) (.unary op none)
  | boxed (x y : Option NodeId) : SameLeaf (.unary .box x) (.unary .box y)
  | binary (op : BinaryOp) (l r l' r' : NodeId) : SameLeaf (.binary op l r) (.binary op l' r')
  | noBlock : SameLeaf (.block none) (.block none)
  | noElse (cond thenBlock cond' thenBlock' : Option NodeId) :
    SameLeaf (.branch cond thenBlock none) (.branch cond' thenBlock' none)
  | noThen (cond cond' : Option NodeId) (x y : NodeId) :
    SameLeaf (.branch cond none (some x)) (.branch cond' none (some y))
  | whileLoop (cond body cond' body' : Option NodeId) :
    SameLeaf (.whileLoop cond body) (.whileLoop cond' body')
  | loop (body body' : Option NodeId) : SameLeaf (.loop body) (.loop body')
  | forLoop (pat iter body pat' iter' body' : Option NodeId) :
    SameLeaf (.forLoop pat iter body) (.forLoop pat' iter' body')
  | array (elems elems' : List NodeId) : SameLeaf (.array elems) (.array elems')
  | index (base place base' place' : NodeId) :
    SameLeaf (.index base place) (.index base' place')
  | cast (x ty x' ty' : NodeId) : SameLeaf (.cast x ty) (.cast x' ty')
  | select (scrutinee scrutinee' : Option NodeId) (arms arms' : List NodeId) :
    SameLeaf (.select scrutinee arms) (.select scrutinee' arms')
  | closure (params params' : List NodeId) (ret body ret' body' : Option NodeId) :
    SameLeaf (.closure params ret body) (.closure params' ret' body')
  | returnWith (x y : Option NodeId) : SameLeaf (.returnWith x) (.returnWith y)
  | breakWith (x y : Option NodeId) : SameLeaf (.breakWith x) (.breakWith y)
  | continueLoop : SameLeaf .continueLoop .continueLoop

/-- One form, of which the rules only look at the declaration that it refers to. -/
inductive SameName : Expr → Expr → Prop where
  | path (p : SymbolPath) : SameName (.path p) (.path p)
  | struct (p : SymbolPath) (fields fields' : List FieldInit) (base base' : Option NodeId) :
    SameName (.struct p fields base) (.struct p fields' base')
  | field (x x' : NodeId) (f f' : FieldName) : SameName (.field x f) (.field x' f')
  | methodCall (x x' : NodeId) (n n' : Name) (args args' : List NodeId) :
    SameName (.methodCall x n args) (.methodCall x' n' args')

end Expr

namespace Context

open TypeDerivation.Derivation

/-- The callee is a path, without brackets, and names the variant. -/
def Constructs (c : Context) (callee variant : NodeId) : Prop :=
  ∃ p, c.tree.kind? callee = some (.expr (.path p)) ∧ c.declOf? callee = some variant ∧
    c.tree.holds NodeKind.isVariant variant = true

def ConstructsSame (c : Context) (f f' : NodeId) : Prop :=
  ∀ variant, c.Constructs f variant ↔ c.Constructs f' variant

/-- Equal up to brackets in all places that the rules look at, where the callees in one place have to
be related by `callees`, too. -/
inductive Alike (c : Context) (callees : NodeId → NodeId → Prop) : NodeId → NodeId → Prop where
  | bracketLeft {a b inner : NodeId} : c.tree.kind? a = some (.expr (.paren inner)) →
    Alike c callees inner b → Alike c callees a b
  | bracketRight {a b inner : NodeId} : c.tree.kind? b = some (.expr (.paren inner)) →
    Alike c callees a inner → Alike c callees a b
  | leaf {a b : NodeId} {e e' : Expr} : c.tree.kind? a = some (.expr e) →
    c.tree.kind? b = some (.expr e') → e.SameLeaf e' → Alike c callees a b
  | named {a b : NodeId} {e e' : Expr} : c.tree.kind? a = some (.expr e) →
    c.tree.kind? b = some (.expr e') → e.SameName e' → c.declOf? a = c.declOf? b →
    Alike c callees a b
  | unary {a b x y : NodeId} {op : UnaryOp} : c.tree.kind? a = some (.expr (.unary op (some x))) →
    c.tree.kind? b = some (.expr (.unary op (some y))) → Alike c callees x y → Alike c callees a b
  | tuple {a b : NodeId} {xs ys : List NodeId} : c.tree.kind? a = some (.expr (.tuple xs)) →
    c.tree.kind? b = some (.expr (.tuple ys)) → xs.length = ys.length →
    (∀ (i : Nat) x y, xs[i]? = some x → ys[i]? = some y → Alike c callees x y) → Alike c callees a b
  | call {a b f f' : NodeId} {args args' : List NodeId} :
    c.tree.kind? a = some (.expr (.call f args)) → c.tree.kind? b = some (.expr (.call f' args')) →
    callees f f' → Alike c callees f f' → Alike c callees a b
  | block {a b x y tail tail' : NodeId} {stmts stmts' : List NodeId} :
    c.tree.kind? a = some (.expr (.block (some x))) →
    c.tree.kind? b = some (.expr (.block (some y))) →
    c.tree.kind? x = some (.block stmts (some tail)) →
    c.tree.kind? y = some (.block stmts' (some tail')) → Alike c callees tail tail' →
    Alike c callees a b
  | noTail {a b x y : NodeId} {stmts stmts' : List NodeId} :
    c.tree.kind? a = some (.expr (.block (some x))) →
    c.tree.kind? b = some (.expr (.block (some y))) → c.tree.kind? x = some (.block stmts none) →
    c.tree.kind? y = some (.block stmts' none) → Alike c callees a b
  -- what stands in the place of a block may be no block
  | strayBlock {a b x y : NodeId} {k k' : NodeKind} :
    c.tree.kind? a = some (.expr (.block (some x))) →
    c.tree.kind? b = some (.expr (.block (some y))) → c.tree.kind? x = some k →
    c.tree.kind? y = some k' → (∀ stmts tail, k ≠ .block stmts tail) →
    (∀ stmts tail, k' ≠ .block stmts tail) → Alike c callees a b
  | branch {a b x y other other' : NodeId} {cond cond' : Option NodeId} :
    c.tree.kind? a = some (.expr (.branch cond (some x) (some other))) →
    c.tree.kind? b = some (.expr (.branch cond' (some y) (some other'))) →
    Alike c callees x y → Alike c callees a b
  -- what stands in the place of an expression may be none
  | stray {a b : NodeId} {k k' : NodeKind} : c.tree.kind? a = some k → c.tree.kind? b = some k' →
    k.isExpr = false → k'.isExpr = false → Alike c callees a b

variable {c : Context} {callees : NodeId → NodeId → Prop} {reply : Replies} {a b f x : NodeId}
  {e e' : Expr}

theorem Alike.lt (h : c.Alike callees a b) : a.index < c.tree.size := by
  induction h with
  | bracketRight _ _ ih => exact ih
  | bracketLeft hk | leaf hk | named hk | unary hk | tuple hk | call hk | block hk | noTail hk
  | strayBlock hk | branch hk | stray hk => exact SyntaxTree.lt_of_kind? hk

theorem exprTypeOf_of_sameLeaf (h : e.SameLeaf e') : c.exprTypeOf a e = c.exprTypeOf b e' := by
  cases h with
  | noOperand op => cases op <;> rfl
  | boxed x y => cases x <;> cases y <;> rfl
  | noElse _ thenBlock _ thenBlock' => cases thenBlock <;> cases thenBlock' <;> rfl
  | _ => rfl

theorem exprTypeOf_of_sameName (h : e.SameName e') (hd : c.declOf? a = c.declOf? b) :
    c.exprTypeOf a e = c.exprTypeOf b e' := by
  cases h with
  | path p => simp only [exprTypeOf, pathType, hd]
  | struct => simp only [exprTypeOf, structLiteralType, hd]
  | field => simp only [exprTypeOf, fieldType, hd]
  | methodCall => simp only [exprTypeOf, methodCallType, hd]

theorem outcome_forEach_congr {α β : Type} {g : α → Derivation β} {xs ys : List α}
    (hlen : xs.length = ys.length)
    (h : ∀ (i : Nat) x y, xs[i]? = some x → ys[i]? = some y →
      (g x).outcome reply = (g y).outcome reply) :
    (forEach g xs).outcome reply = (forEach g ys).outcome reply := by
  induction xs generalizing ys with
  | nil =>
    cases ys with
    | nil => rfl
    | cons y ys => cases hlen
  | cons x xs ih =>
    cases ys with
    | nil => cases hlen
    | cons y ys =>
      have hhead : (g x).outcome reply = (g y).outcome reply := h 0 x y rfl rfl
      have htail := ih (Nat.succ.inj hlen) fun i => h (i + 1)
      simp only [forEach, outcome_bind, hhead, htail]

theorem callType_of_constructs {variant : NodeId} (h : c.Constructs f variant) :
    c.callType f = c.variantType variant := by
  obtain ⟨p, hk, hd, hv⟩ := h
  obtain ⟨kind, hkind, hvariant⟩ := SyntaxTree.holds_iff.mp hv
  have hconstructed : c.constructed? f = .done (some variant) := by
    rw [constructed?, kind_bind hk]
    simp only [hd, kind_bind hkind, hvariant, if_true]
    rfl
  rw [callType, hconstructed]
  rfl

theorem constructed?_eq_none {k : NodeKind} (h : ∀ variant, ¬c.Constructs f variant)
    (hk : c.tree.kind? f = some k)
    (hlt : ∀ p decl, k = .expr (.path p) → c.declOf? f = some decl → decl.index < c.tree.size) :
    c.constructed? f = .done none := by
  rw [constructed?, kind_bind hk]
  split
  · rename_i p
    cases hd : c.declOf? f with
    | none => rfl
    | some decl =>
      obtain ⟨kind, hkind⟩ := SyntaxTree.kind?_of_lt (hlt p decl rfl hd)
      have hv : kind.isVariant = false := by
        by_contra hv
        exact h decl ⟨p, hk, hd, SyntaxTree.holds_iff.mpr ⟨kind, hkind, by simpa using hv⟩⟩
      simp only [kind_bind hkind, hv]
      rfl
  · rfl

section

variable (ht : c.tree.Ordered) (hmax : c.settings.maxDepth = none)
include ht hmax

theorem answers_of_expr (hk : c.tree.kind? a = some (.expr e)) :
    c.answers .idle (.expr a) = (c.exprTypeOf a e).outcome (c.answers .idle) := by
  rw [answers_expr ht hmax, exprRule, kind_bind hk]

theorem answers_of_stray {k : NodeKind} (hk : c.tree.kind? a = some k) (hs : k.isExpr = false) :
    c.answers .idle (.expr a) = .ok .unknown := by
  rw [answers_expr ht hmax, exprRule, kind_bind hk]
  cases k with
  | expr e => cases hs
  | _ => rfl

theorem answers_bracket (hk : c.tree.kind? a = some (.expr (.paren x))) :
    c.answers .idle (.expr a) = c.answers .idle (.expr x) := by
  rw [answers_of_expr ht hmax hk, exprTypeOf, exprType, outcome_request]

/-- A callee that is no path to a variant is typed like any other expression. Where its declaration
is not there, that goes wrong in the same way. -/
theorem outcome_callType (h : ∀ variant, ¬c.Constructs f variant) :
    (c.callType f).outcome (c.answers .idle) =
      (fun ty => ty.ret?.getD .unknown) <$> c.answers .idle (.expr f) := by
  cases hk : c.tree.kind? f with
  | none =>
    have hstop : c.kind f = .stop (.outside c.tree.size f.index) := by rw [kind, hk]
    rw [answers_expr ht hmax, callType, constructed?, exprRule, hstop]
    rfl
  | some k =>
    by_cases hforeign : ∃ p decl, k = .expr (.path p) ∧ c.declOf? f = some decl ∧
      c.tree.size ≤ decl.index
    · obtain ⟨p, decl, rfl, hd, hlt⟩ := hforeign
      have hconstructed : c.constructed? f = .stop (.outside c.tree.size decl.index) := by
        rw [constructed?, kind_bind hk]
        simp only [hd, kind_of_foreign hlt]
        rfl
      rw [answers_of_expr ht hmax hk, exprTypeOf, pathType, hd]
      change _ = _ <$> (entityType decl).outcome _
      rw [entityType, outcome_request, answers_entity_foreign ht (by simp [hmax]) hlt, callType,
        hconstructed]
      rfl
    · have hconstructed : c.constructed? f = .done none := by
        apply constructed?_eq_none h hk
        intro p decl hp hd
        by_contra hlt
        exact hforeign ⟨p, decl, hp, hd, Nat.le_of_not_lt hlt⟩
      rw [callType, hconstructed]
      change (exprType f >>= fun ty => .done (ty.ret?.getD .unknown)).outcome _ = _
      rw [outcome_bind, exprType, outcome_request]
      cases c.answers .idle (.expr f) <;> rfl

theorem outcome_callType_congr {f' : NodeId} (hc : c.ConstructsSame f f')
    (h : c.answers .idle (.expr f) = c.answers .idle (.expr f')) :
    (c.callType f).outcome (c.answers .idle) = (c.callType f').outcome (c.answers .idle) := by
  by_cases hf : ∃ variant, c.Constructs f variant
  · obtain ⟨variant, hf⟩ := hf
    rw [callType_of_constructs hf, callType_of_constructs ((hc variant).mp hf)]
  · have hnot (variant : NodeId) : ¬c.Constructs f variant := fun hv => hf ⟨variant, hv⟩
    have hnot' (variant : NodeId) : ¬c.Constructs f' variant := fun hv =>
      hnot variant ((hc variant).mpr hv)
    rw [outcome_callType ht hmax hnot, outcome_callType ht hmax hnot', h]

theorem Alike.answers_eq (h : c.Alike c.ConstructsSame a b) :
    c.answers .idle (.expr a) = c.answers .idle (.expr b) := by
  -- by the form: a rule asks on both sides for parts that are alike, or for none
  induction h with
  | bracketLeft hk _ ih => rw [answers_bracket ht hmax hk, ih]
  | bracketRight hk _ ih => rw [answers_bracket ht hmax hk, ih]
  | leaf hk hk' hs =>
    rw [answers_of_expr ht hmax hk, answers_of_expr ht hmax hk', exprTypeOf_of_sameLeaf hs]
  | named hk hk' hs hd =>
    rw [answers_of_expr ht hmax hk, answers_of_expr ht hmax hk', exprTypeOf_of_sameName hs hd]
  | @unary a b x y op hk hk' _ ih =>
    have hexpr : (exprType x).outcome (c.answers .idle) = (exprType y).outcome (c.answers .idle) := by
      rw [exprType, exprType, outcome_request, outcome_request, ih]
    rw [answers_of_expr ht hmax hk, answers_of_expr ht hmax hk', exprTypeOf, exprTypeOf]
    cases op with
    | ref mutable => simp only [unaryType, ← bind_pure_comp, outcome_bind, hexpr]
    | deref | neg | not => exact hexpr
    | box => rfl
  | @tuple a b xs ys hk hk' hlen _ ih =>
    have hall : (forEach exprType xs).outcome (c.answers .idle) =
        (forEach exprType ys).outcome (c.answers .idle) := by
      apply outcome_forEach_congr hlen
      intro i x y hx hy
      rw [exprType, exprType, outcome_request, outcome_request, ih i x y hx hy]
    rw [answers_of_expr ht hmax hk, answers_of_expr ht hmax hk', exprTypeOf, exprTypeOf,
      ← bind_pure_comp, ← bind_pure_comp, outcome_bind, outcome_bind, hall]
  | call hk hk' hc _ ih =>
    rw [answers_of_expr ht hmax hk, answers_of_expr ht hmax hk']
    exact outcome_callType_congr ht hmax hc ih
  | block hk hk' hx hy _ ih =>
    rw [answers_of_expr ht hmax hk, answers_of_expr ht hmax hk', exprTypeOf, exprTypeOf, blockType,
      blockType, kind_bind hx, kind_bind hy]
    simp only [exprType, outcome_request, ih]
  | noTail hk hk' hx hy =>
    rw [answers_of_expr ht hmax hk, answers_of_expr ht hmax hk', exprTypeOf, exprTypeOf, blockType,
      blockType, kind_bind hx, kind_bind hy]
  | @strayBlock a b x y k k' hk hk' hx hy hs hs' =>
    have hunknown {x : NodeId} {k : NodeKind} (hx : c.tree.kind? x = some k)
        (hs : ∀ stmts tail, k ≠ .block stmts tail) :
        (c.blockType (some x)).outcome (c.answers .idle) = .ok .unknown := by
      rw [blockType, kind_bind hx]
      cases k with
      | block stmts tail => exact absurd rfl (hs stmts tail)
      | _ => rfl
    rw [answers_of_expr ht hmax hk, answers_of_expr ht hmax hk', exprTypeOf, exprTypeOf,
      hunknown hx hs, hunknown hy hs']
  | branch hk hk' _ ih =>
    rw [answers_of_expr ht hmax hk, answers_of_expr ht hmax hk']
    simp only [exprTypeOf, branchType, exprType, outcome_request, ih]
  | stray hk hk' hs hs' => rw [answers_of_stray ht hmax hk hs, answers_of_stray ht hmax hk' hs']

end

end Context

/-- Without a limit, expressions that are equal up to brackets have the same type, as long as callees
in one place name the same variant by a path without brackets, or neither names one. -/
theorem brackets_transparent {t : SyntaxTree} (ht : t.Built) (R : Resolver) (s : Settings)
    (i : Inference) :
    let c : Context := ⟨t, R, { s with maxDepth := none }, i⟩
    ∀ a b, c.Alike c.ConstructsSame a b →
      c.answerQuery (.expr a) .idle = c.answerQuery (.expr b) .idle ∧
        (R.Tabled t → ∃ ty, c.answerQuery (.expr a) .idle = (.ok ty, .idle)) := by
  intro c a b h
  have ho : c.tree.Ordered := ht.ordered
  have hanswer (id : NodeId) :
      c.answerQuery (.expr id) .idle = (c.answers .idle (.expr id), .idle) :=
    Context.answerQuery_eq rfl .idle
  refine ⟨by rw [hanswer, hanswer, h.answers_eq ho rfl], ?_⟩
  intro hR
  obtain ⟨ty, hty⟩ :=
    Context.answers_ok ho (hR.within ho) (r := .expr a) (Guards.fits_idle _) h.lt
  exact ⟨ty, by rw [hanswer, hty]⟩

/-- A tuple of a call and a negation: once the callee is in brackets, once the operand and the whole
tuple are. -/
def bracketedTuples : SyntaxTree :=
  .afterSteps .empty [.intern "f", .node (.typeExpr (.tuple [])),
    .node (.item (.fn ⟨7⟩ ⟨[], none, [], some ⟨0⟩, none⟩)),
    .node (.expr (.path (.single ⟨7⟩))), .node (.expr (.paren ⟨2⟩)), .node (.expr (.call ⟨3⟩ [])),
    .shorthand (.boolLit true), .node (.expr (.unary .not (some ⟨5⟩))),
    .node (.expr (.tuple [⟨4⟩, ⟨6⟩])),
    .node (.expr (.path (.single ⟨7⟩))), .node (.expr (.call ⟨8⟩ [])), .shorthand (.boolLit true),
    .node (.expr (.paren ⟨10⟩)), .node (.expr (.unary .not (some ⟨11⟩))),
    .node (.expr (.tuple [⟨9⟩, ⟨12⟩])), .node (.expr (.paren ⟨13⟩))]

theorem bracketedTuples_built : bracketedTuples.Built := ⟨_, rfl⟩

def bracketedTuplesContext : Context :=
  ⟨bracketedTuples, (ResolvedNames.empty.bindPath "f" ⟨1⟩).resolver, .standard, .structural⟩

set_option maxRecDepth 4096 in
theorem declOf?_bracketedTuples : bracketedTuplesContext.declOf? ⟨2⟩ = some ⟨1⟩ ∧
    bracketedTuplesContext.declOf? ⟨8⟩ = some ⟨1⟩ := ⟨rfl, rfl⟩

set_option maxRecDepth 4096 in
theorem constructsSame_bracketedTuples :
    bracketedTuplesContext.ConstructsSame ⟨3⟩ ⟨8⟩ := by
  have hparen : bracketedTuplesContext.tree.kind? ⟨3⟩ = some (.expr (.paren ⟨2⟩)) := rfl
  have hfn : bracketedTuplesContext.tree.holds NodeKind.isVariant ⟨1⟩ = false := rfl
  intro variant
  constructor
  · rintro ⟨p, hk, -⟩
    have hpath := hparen.symm.trans hk
    simp at hpath
  · rintro ⟨p, -, hd, hv⟩
    have hdecl := declOf?_bracketedTuples.2.symm.trans hd
    obtain rfl : (⟨1⟩ : NodeId) = variant := by simpa using hdecl
    exact absurd (hfn.symm.trans hv) (by decide)

set_option maxRecDepth 4096 in
theorem alike_bracketedTuples :
    bracketedTuplesContext.Alike bracketedTuplesContext.ConstructsSame ⟨7⟩ ⟨14⟩ := by
  obtain ⟨hf, hf'⟩ := declOf?_bracketedTuples
  have hcallee : bracketedTuplesContext.Alike bracketedTuplesContext.ConstructsSame ⟨3⟩ ⟨8⟩ :=
    .bracketLeft rfl (.named rfl rfl (.path _) (hf.trans hf'.symm))
  have hcalls : bracketedTuplesContext.Alike bracketedTuplesContext.ConstructsSame ⟨4⟩ ⟨9⟩ :=
    .call rfl rfl constructsSame_bracketedTuples hcallee
  have hnegated : bracketedTuplesContext.Alike bracketedTuplesContext.ConstructsSame ⟨6⟩ ⟨12⟩ :=
    .unary rfl rfl (.bracketRight rfl (.leaf rfl rfl (.lit _)))
  have htuple : bracketedTuplesContext.tree.kind? ⟨7⟩ = some (.expr (.tuple [⟨4⟩, ⟨6⟩])) := rfl
  have htuple' : bracketedTuplesContext.tree.kind? ⟨13⟩ = some (.expr (.tuple [⟨9⟩, ⟨12⟩])) := rfl
  refine .bracketRight rfl (.tuple htuple htuple' rfl ?_)
  intro i x y hx hy
  match i with
  | 0 =>
    cases hx
    cases hy
    exact hcalls
  | 1 =>
    cases hx
    cases hy
    exact hnegated
  | i + 2 => cases hx

set_option maxRecDepth 4096 in
theorem answer_bracketedTuples : bracketedTuplesContext.answerQuery (.expr ⟨7⟩) .idle =
    (.ok (.tuple [.unit, .bool]), .idle) := rfl

theorem brackets_transparent_tuples :
    let c := bracketedTuplesContext
    bracketedTuples.Built ∧ c.Alike c.ConstructsSame ⟨7⟩ ⟨14⟩ ∧
      c.answerQuery (.expr ⟨7⟩) .idle = (.ok (.tuple [.unit, .bool]), .idle) ∧
      c.answerQuery (.expr ⟨14⟩) .idle = (.ok (.tuple [.unit, .bool]), .idle) := by
  intro c
  have h := brackets_transparent bracketedTuples_built
    (ResolvedNames.empty.bindPath "f" ⟨1⟩).resolver .standard .structural ⟨7⟩ ⟨14⟩
    alike_bracketedTuples
  exact ⟨bracketedTuples_built, alike_bracketedTuples, answer_bracketedTuples,
    h.1.symm.trans answer_bracketedTuples⟩

/-- A variant that is called by its path, and by its path in brackets. -/
def bracketedVariant : SyntaxTree :=
  .afterSteps .empty [.intern "V", .intern "E", .node (.decl (.variant ⟨7⟩ [])),
    .node (.enumBody [⟨0⟩]), .node (.item (.enum ⟨8⟩ [] (some ⟨1⟩))),
    .node (.expr (.path (.single ⟨7⟩))), .node (.expr (.call ⟨3⟩ [])),
    .node (.expr (.path (.single ⟨7⟩))), .node (.expr (.paren ⟨5⟩)), .node (.expr (.call ⟨6⟩ []))]

def bracketedVariantNames : ResolvedNames := ResolvedNames.empty.bindPath "V" ⟨0⟩

set_option maxRecDepth 4096 in
theorem size_bracketedVariant : bracketedVariant.size = 8 := rfl

theorem bracketedVariantNames_within : bracketedVariantNames.Within bracketedVariant :=
  (ResolvedNames.within_empty _).bindPath _ (by rw [size_bracketedVariant]; decide)

def bracketedVariantContext : Context :=
  ⟨bracketedVariant, bracketedVariantNames.resolver, .standard, .structural⟩

set_option maxRecDepth 4096 in
theorem declOf?_bracketedVariant : bracketedVariantContext.declOf? ⟨3⟩ = some ⟨0⟩ ∧
    bracketedVariantContext.declOf? ⟨5⟩ = some ⟨0⟩ := ⟨rfl, rfl⟩

set_option maxRecDepth 4096 in
theorem alike_bracketedVariant : bracketedVariantContext.Alike (fun _ _ => True) ⟨4⟩ ⟨7⟩ := by
  obtain ⟨hf, hf'⟩ := declOf?_bracketedVariant
  have hcallee : bracketedVariantContext.Alike (fun _ _ => True) ⟨3⟩ ⟨6⟩ :=
    .bracketRight rfl (.named rfl rfl (.path _) (hf.trans hf'.symm))
  exact .call rfl rfl trivial hcallee

set_option maxRecDepth 4096 in
theorem answers_bracketedVariant :
    bracketedVariantContext.answerQuery (.expr ⟨4⟩) .idle = (.ok (.enum ⟨2⟩), .idle) ∧
      bracketedVariantContext.answerQuery (.expr ⟨7⟩) .idle = (.ok .unknown, .idle) := ⟨rfl, rfl⟩

theorem bracketed_variant_not_constructed :
    let c := bracketedVariantContext
    bracketedVariant.Built ∧ c.resolver.Tabled bracketedVariant ∧
      c.Alike (fun _ _ => True) ⟨4⟩ ⟨7⟩ ∧
      c.answerQuery (.expr ⟨4⟩) .idle = (.ok (.enum ⟨2⟩), .idle) ∧
      c.answerQuery (.expr ⟨7⟩) .idle = (.ok .unknown, .idle) :=
  ⟨⟨_, rfl⟩, .names bracketedVariantNames_within, alike_bracketedVariant, answers_bracketedVariant⟩

end TypeDerivation
