import TypeDerivation.Proofs.Derivation.Requests.Rule

/-!
What each rule asks for where nothing is known of the table: a declaration may be outside the tree.
Fuel can then only run out in a request, not in a rule.
-/

namespace TypeDerivation

/-- Where it is about a node of the tree at all, work on `r` may ask for `r'`. -/
def Request.Leads (t : SyntaxTree) (r r' : Request) : Prop :=
  r'.node.index < t.size → r.Follows t r'

namespace Derivation

variable {α β : Type} {P : Request → Prop} {d : Derivation α} {f : α → Derivation β}

/-- Unless a request with `P` ends for want of fuel, `d` does not. -/
def Fed (P : Request → Prop) (d : Derivation α) : Prop :=
  ∀ reply : Replies, (∀ r, P r → reply r ≠ .error .exhausted) → d.outcome reply ≠ .error .exhausted

namespace Fed

theorem done (a : α) : (Derivation.done a).Fed P := by
  intro reply _ h
  cases h

theorem stop {fault : Fault} (h : fault ≠ .exhausted) :
    (Derivation.stop fault : Derivation α).Fed P := by
  intro reply _ he
  cases he
  exact h rfl

theorem request {r : Request} (h : P r) : (Derivation.request r).Fed P := by
  intro reply hr
  rw [outcome_request]
  exact hr r h

theorem bind (h : d.Fed P) (hf : ∀ a, (f a).Fed P) : (d >>= f).Fed P := by
  intro reply hr
  rw [outcome_bind]
  cases he : d.outcome reply with
  | ok a => exact hf a reply hr
  | error fault =>
    intro hb
    cases hb
    exact h reply hr he

theorem map {f : α → β} (h : d.Fed P) : (f <$> d).Fed P := by
  rw [← bind_pure_comp]
  exact h.bind fun a => done (f a)

theorem forEach {f : α → Derivation β} {as : List α} (h : ∀ a ∈ as, (f a).Fed P) :
    (Derivation.forEach f as).Fed P := by
  induction as with
  | nil => exact done []
  | cons a rest ih =>
    apply (h a List.mem_cons_self).bind
    intro b
    exact (ih fun a ha => h a (List.mem_cons_of_mem _ ha)).bind fun bs => done (b :: bs)

theorem denotedOr (absent : Ty) {o : Option NodeId} (h : ∀ id, P (.typeExpr id)) :
    (Derivation.denotedOr absent o).Fed P := by
  cases o with
  | none => exact done absent
  | some id => exact request (h id)

end Fed
end Derivation

namespace Context

open TypeDerivation.Derivation Request

variable {c : Context} {α : Type} {id : NodeId} {P : Request → Prop}

theorem fed_kind_bind {f : NodeKind → Derivation α}
    (h : ∀ k, c.tree.kind? id = some k → (f k).Fed P) : (c.kind id >>= f).Fed P := by
  rw [kind]
  cases hk : c.tree.kind? id with
  | none => exact Fed.stop (by simp)
  | some k => exact h k hk

theorem fed_enterEntry (s : Place) (arity index : Nat) : (enterEntry s arity index).Fed P := by
  rw [enterEntry]
  split
  · split
    · split
      · exact .done _
      · exact .stop (by simp)
    · exact .done _
  · exact .done _

theorem fed_constructed? (callee : NodeId) : (c.constructed? callee).Fed P := by
  rw [constructed?]
  apply fed_kind_bind
  intro k _
  split
  · split
    · exact fed_kind_bind fun _ _ => .done _
    · exact .done _
  · exact .done _

theorem fed_fieldsFor (pat : NodeId) (ty : Ty) : (c.fieldsFor pat ty).Fed P := by
  rw [fieldsFor]
  split
  · exact .done _
  · apply fed_kind_bind
    intro k _
    split <;> exact .done _

theorem fed_fieldNamed (n : Name) (ids : List NodeId) : (c.fieldNamed n ids).Fed P := by
  induction ids with
  | nil => exact .done _
  | cons id rest ih =>
    rw [fieldNamed]
    apply fed_kind_bind
    intro k _
    split
    · split
      · exact .done _
      · exact ih
    · exact ih

theorem fed_fieldTypeExpr (id : NodeId) : (c.fieldTypeExpr id).Fed P := by
  rw [fieldTypeExpr]
  apply fed_kind_bind
  intro k _
  split <;> exact .done _

theorem fed_bindingAt (id : NodeId) (s : Place) : (c.bindingAt id s).Fed P := by
  rw [bindingAt]
  apply fed_kind_bind
  intro k _
  split <;> exact .done _

theorem fed_shape (id : NodeId) : (c.shape id).Fed P := by
  rw [shape]
  apply fed_kind_bind
  intro k _
  split <;> exact .done _

theorem fed_unaryType {op : UnaryOp} {operand : Option NodeId}
    (h : ∀ x ∈ operand, P (.expr x)) : (unaryType op operand).Fed P := by
  cases operand with
  | none => exact .done _
  | some x =>
    cases op with
    | ref m => exact (Fed.request (h x rfl)).map
    | deref | neg | not => exact .request (h x rfl)
    | box => exact .done _

theorem fed_branchType {thenBlock elseBranch : Option NodeId}
    (h : ∀ x ∈ thenBlock, P (.expr x)) : (branchType thenBlock elseBranch).Fed P := by
  cases elseBranch with
  | none =>
    cases thenBlock with
    | none => exact .done _
    | some _ => exact .done _
  | some _ =>
    cases thenBlock with
    | none => exact .done _
    | some x => exact .request (h x rfl)

theorem fed_blockType (ht : c.tree.Ordered) {inner : Option NodeId}
    (h : ∀ x ∈ inner, ∀ y, y.index < x.index → P (.expr y)) : (c.blockType inner).Fed P := by
  cases inner with
  | none => exact .done _
  | some block =>
    rw [blockType]
    apply fed_kind_bind
    intro k hk
    split
    · exact .request (h block rfl _ (ht.child_lt hk (by simp [NodeKind.children])))
    · exact .done _
    · exact .done _

theorem fed_shapeType {shape : Shape} (scope : NodeId) (h : ∀ x ∈ shape.parts, P (.typeExpr x))
    (hpath : ∀ decl, P (.entity decl)) : (c.shapeType scope shape).Fed P := by
  cases shape with
  | unknown | unit | primitive _ => exact .done _
  | tuple elems => exact (Fed.forEach fun x hx => .request (h x hx)).map
  | ref inner _ => exact (Fed.request (h inner List.mem_cons_self)).map
  | path p =>
    rw [shapeType]
    split
    · exact .request (hpath _)
    · exact .done _

section

variable (hP : ∀ r, (r.node.index < c.tree.size → r.Shallow c.tree) → P r)
include hP

theorem fed_typeExpr (id : NodeId) : (denotedType id).Fed P :=
  .request (hP _ shallow_typeExpr)

theorem fed_denotedOr (absent : Ty) (o : Option NodeId) : (denotedOr absent o).Fed P :=
  .denotedOr absent fun _ => hP _ shallow_typeExpr

theorem fed_entity (id : NodeId) : (entityType id).Fed P := .request (hP _ shallow_entity)

theorem fed_itemType (id : NodeId) : (c.itemType id).Fed P := by
  rw [itemType]
  apply fed_kind_bind
  intro k hk
  split
  · rename_i hi
    cases k with
    | item i => exact .request (hP _ fun _ => shallow_item hk)
    | _ => cases hi
  · exact .stop (by simp)

theorem fed_variantType (variant : NodeId) : (c.variantType variant).Fed P := by
  rw [variantType]
  split
  · exact fed_itemType hP _
  · exact .done _

theorem fed_receiverType (param : NodeId) : (c.receiverType param).Fed P := by
  rw [receiverType]
  apply fed_kind_bind
  intro k _
  split
  · exact (fed_denotedOr hP _ _).bind fun _ => .done _
  · exact .done _

theorem fed_paramType (param : NodeId) : (c.paramType param).Fed P := by
  rw [paramType]
  apply fed_kind_bind
  intro k _
  split
  · exact fed_denotedOr hP _ _
  · exact .done _

theorem fed_signatureType (sig : Signature) : (c.signatureType sig).Fed P := by
  rw [signatureType]
  apply (Fed.forEach fun param _ => fed_receiverType hP param).bind
  intro receiver
  apply (Fed.forEach fun param _ => fed_paramType hP param).bind
  intro params
  exact (fed_denotedOr hP _ _).bind fun _ => .done _

theorem fed_fnType (id : NodeId) : (c.fnType id).Fed P := by
  rw [fnType]
  apply fed_kind_bind
  intro k _
  split
  · exact fed_signatureType hP _
  · exact .done _

theorem fed_pathType (id : NodeId) : (c.pathType id).Fed P := by
  rw [pathType]
  split
  · exact fed_entity hP _
  · exact .done _

theorem fed_fieldType (id : NodeId) : (c.fieldType id).Fed P := by
  rw [fieldType]
  split
  · exact .done _
  · apply fed_kind_bind
    intro k _
    split
    · exact fed_denotedOr hP _ _
    · exact fed_typeExpr hP _
    · exact .done _

theorem fed_structLiteralType (id : NodeId) : (c.structLiteralType id).Fed P := by
  rw [structLiteralType]
  split
  · exact .done _
  · apply fed_kind_bind
    intro k _
    split
    · exact fed_itemType hP _
    · exact fed_variantType hP _
    · exact .done _

theorem fed_callType {callee : NodeId} (h : P (.expr callee)) : (c.callType callee).Fed P := by
  rw [callType]
  apply (fed_constructed? callee).bind
  intro o
  split
  · exact fed_variantType hP _
  · exact (Fed.request h).bind fun _ => .done _

theorem fed_methodCallType (id : NodeId) : (c.methodCallType id).Fed P := by
  rw [methodCallType]
  split
  · exact .done _
  · apply fed_kind_bind
    intro k _
    split
    · exact (fed_fnType hP _).bind fun _ => .done _
    · exact .done _

theorem fed_enterField (s : Place) (o : Option NodeId) : (c.enterField s o).Fed P := by
  cases o with
  | none => exact .done _
  | some id =>
    rw [enterField]
    apply (fed_fieldTypeExpr id).bind
    intro written
    split
    · exact .done _
    · exact (fed_typeExpr hP _).bind fun _ => .done _

theorem fed_enterNamed (pat child : NodeId) (fields : List FieldPat) (s : Place) :
    (c.enterNamed pat child fields s).Fed P := by
  rw [enterNamed]
  split
  · exact .done _
  · apply (fed_fieldsFor pat s.ty).bind
    intro ids
    split
    · exact .done _
    · exact (fed_fieldNamed _ _).bind fun _ => fed_enterField hP s _

theorem fed_enterPositional (pat child : NodeId) (elems : List NodeId) (s : Place) :
    (c.enterPositional pat child elems s).Fed P := by
  rw [enterPositional]
  split
  · exact .done _
  · apply (fed_fieldsFor pat s.ty).bind
    intro ids
    split
    · exact .done _
    · exact fed_enterField hP s _

theorem fed_descend (pat child : NodeId) (s : Place) : (c.descend pat child s).Fed P := by
  rw [descend]
  apply fed_kind_bind
  intro k _
  split
  · exact .done _
  · exact .done _
  · split
    · exact .done _
    · exact fed_enterEntry _ _ _
  · exact fed_enterNamed hP _ _ _ _
  · exact fed_enterPositional hP _ _ _ _
  · exact .done _

theorem fed_descendAll (chain : List NodeId) (s : Place) : (c.descendAll chain s).Fed P := by
  induction chain generalizing s with
  | nil => exact .done _
  | cons pat rest ih =>
    cases rest with
    | nil => exact .done _
    | cons child rest =>
      rw [descendAll]
      apply (fed_descend hP pat child s).bind
      intro o
      split
      · exact .done _
      · exact ih _

theorem fed_infer (i : Inference) (id top : NodeId) (ty : Ty) : (c.infer i id top ty).Fed P := by
  cases i with
  | identity => exact .done _
  | structural =>
    rw [infer, inferStructural]
    split
    · exact .done _
    · apply (fed_descendAll hP _ _).bind
      intro o
      split
      · exact .done _
      · exact fed_bindingAt _ _

end

theorem fed_itemTypeOf (hP : ∀ r, (r.node.index < c.tree.size → r.Shallow c.tree) → P r)
    (id : NodeId) (i : Item) : (c.itemTypeOf id i).Fed P := by
  cases i with
  | typeAlias _ _ _ => exact fed_denotedOr hP _ _
  | fn _ _ => exact fed_fnType hP _
  | struct _ _ _ | enum _ _ _ | trait _ _ _ | impl _ _ _ _ | const _ _ _ | static _ _ _ _
  | module _ _ | use _ => exact .done _

theorem fed_bindingType (hP : ∀ r, (r.node.index < c.tree.size → r.Proper c.tree) → P r)
    (id : NodeId) : (c.bindingType id).Fed P := by
  rw [bindingType]
  split
  · exact .done _
  · rename_i origin _
    have htype : origin.type.Fed P := by
      cases origin with
      | typeExpr x => exact .request (hP _ fun hx => hx)
      | expr x => exact .request (hP _ fun hx => hx)
      | unstated => exact .done _
    exact htype.bind fun ty => fed_infer (fun r hr => hP r fun hx => (hr hx).1) _ _ _ ty

theorem fed_entityRule (hP : ∀ r, (r.node.index < c.tree.size → r.Proper c.tree) → P r)
    (id : NodeId) : (c.entityRule id).Fed P := by
  have hshallow (r : Request) (hr : r.node.index < c.tree.size → r.Shallow c.tree) : P r :=
    hP r fun hx => (hr hx).1
  rw [entityRule]
  apply fed_kind_bind
  intro k _
  split
  · exact fed_itemTypeOf hshallow _ _
  · exact fed_receiverType hshallow _
  · exact fed_bindingType hP _
  · exact fed_variantType hshallow _
  · exact fed_fnType hshallow _
  · exact .done _
  · exact .done _

theorem fed_exprRule (ht : c.tree.Ordered) (id : NodeId) :
    (c.exprRule id).Fed ((expr id).Leads c.tree) := by
  rw [exprRule]
  apply fed_kind_bind
  intro k hk
  split
  · rename_i e
    -- Only work on another expression has to be on an earlier node.
    have hP (r : Request) (hr : r.node.index < c.tree.size → r.Shallow c.tree) :
        (expr id).Leads c.tree r := fun hx => follows_expr_of_shallow (hr hx)
    have hid : id.index < c.tree.size := SyntaxTree.lt_of_kind? hk
    have hchild {x : NodeId} (hx : x ∈ e.children) : x.index < id.index := ht.child_lt hk hx
    have hasks {x : NodeId} (hx : x ∈ e.children) : (expr id).Leads c.tree (expr x) :=
      fun _ => follows_expr (hchild hx) hid
    cases e with
    | path _ => exact fed_pathType hP _
    | field _ _ => exact fed_fieldType hP _
    | struct _ _ _ => exact fed_structLiteralType hP _
    | unary op operand => exact fed_unaryType fun x hx => hasks (by simpa [Expr.children] using hx)
    | paren inner => exact .request (hasks (by simp [Expr.children]))
    | tuple elems => exact (Fed.forEach fun x hx => .request (hasks hx)).map
    | call callee _ => exact fed_callType hP (hasks (by simp [Expr.children]))
    | methodCall _ _ _ => exact fed_methodCallType hP _
    | block inner =>
      refine fed_blockType ht fun x hx y hy _ => follows_expr (Nat.lt_trans hy (hchild ?_)) hid
      simpa [Expr.children] using hx
    | branch cond thenBlock elseBranch =>
      refine fed_branchType fun x hx => hasks ?_
      simp only [Expr.children, List.mem_append, Option.mem_toList]
      exact .inl (.inr hx)
    | lit _ | unit | binary _ _ _ | whileLoop _ _ | loop _ | forLoop _ _ _ | array _ | index _ _
    | cast _ _ | select _ _ | closure _ _ _ | returnWith _ | breakWith _ | continueLoop =>
      exact .done _
  · exact .done _

theorem fed_typeExprRule (ht : c.tree.Ordered) (id : NodeId) :
    (c.typeExprRule id).Fed ((typeExpr id).Leads c.tree) := by
  rw [typeExprRule, shape, LawfulMonad.bind_assoc]
  apply fed_kind_bind
  intro k hk
  have hid : id.index < c.tree.size := SyntaxTree.lt_of_kind? hk
  split
  · rename_i e
    refine fed_shapeType id (fun x hx _ => ?_) fun decl => typeExpr_follows_entity
    exact follows_typeExpr (ht.child_lt hk (mem_children_of_mem_parts hx)) hid
  · exact .done _

theorem fed_rule (ht : c.tree.Ordered) (r : Request) : (c.rule r).Fed (r.Leads c.tree) := by
  cases r with
  | expr id => exact fed_exprRule ht id
  | typeExpr id => exact fed_typeExprRule ht id
  | entity id =>
    exact fed_entityRule (fun r hr hx => follows_of_decl? (by simp [decl?]) (hr hx)) id
  | item id =>
    rw [rule, itemRule]
    apply fed_kind_bind
    intro k _
    split
    · exact fed_itemTypeOf (fun r hr hx => follows_of_decl? (by simp [decl?]) (hr hx).1) id _
    · exact .done _

theorem kind_of_foreign {id : NodeId} (h : c.tree.size ≤ id.index) :
    c.kind id = .stop (.outside c.tree.size id.index) := by
  rw [kind, SyntaxTree.kind?, SyntaxTree.get?_eq_none_iff.mpr h]
  rfl

theorem rule_of_foreign {r : Request} (h : c.tree.size ≤ r.node.index) :
    c.rule r = .stop (.outside c.tree.size r.node.index) := by
  have hkind : c.kind r.node = .stop (.outside c.tree.size r.node.index) := kind_of_foreign h
  cases r with
  | expr id =>
    rw [rule, exprRule, show c.kind id = _ from hkind]
    rfl
  | entity id =>
    rw [rule, entityRule, show c.kind id = _ from hkind]
    rfl
  | item id =>
    rw [rule, itemRule, show c.kind id = _ from hkind]
    rfl
  | typeExpr id =>
    rw [rule, typeExprRule, shape, show c.kind id = _ from hkind]
    rfl

end Context

end TypeDerivation
