import TypeDerivation.Proofs.Derivation.Comparison

namespace TypeDerivation.Context

open TypeDerivation.Derivation

variable {c : Context} {R' : Resolver} {reply reply' : Replies} {id : NodeId}

namespace Improves

variable (h : c.Improves R' reply reply')
include h

theorem unaryType (op : UnaryOp) (operand : Option NodeId) :
    Related reply reply' Ty.Blurs (unaryType op operand) (unaryType op operand) := by
  cases operand with
  | none => exact .unknown _
  | some x =>
    cases op with
    | ref m => exact (h.request _).map fun _ _ hab => .ref m hab
    | deref | neg | not => exact h.request _
    | box => exact .unknown _

theorem branchType (thenBlock elseBranch : Option NodeId) :
    Related reply reply' Ty.Blurs (branchType thenBlock elseBranch)
      (branchType thenBlock elseBranch) := by
  cases elseBranch with
  | none =>
    cases thenBlock with
    | none => exact .done (.refl _)
    | some _ => exact .done (.refl _)
  | some _ =>
    cases thenBlock with
    | none => exact .unknown _
    | some x => exact h.request _

theorem blockType (inner : Option NodeId) :
    Related reply reply' Ty.Blurs (c.blockType inner) ((c.withResolver R').blockType inner) := by
  cases inner with
  | none => exact .unknown _
  | some block =>
    refine related_kind fun k _ => ?_
    split
    · exact h.request _
    · exact .done (.refl _)
    · exact .unknown _

variable (hid : id.index < c.tree.size)
include hid

theorem pathType :
    Related reply reply' Ty.Blurs (c.pathType id) ((c.withResolver R').pathType id) := by
  rw [Context.pathType, Context.pathType]
  rcases h.declOf?_cases hid with hd | ⟨decl, hd, hd'⟩
  · rw [hd]
    exact .unknown _
  · rw [hd, hd']
    exact h.request _

theorem fieldType :
    Related reply reply' Ty.Blurs (c.fieldType id) ((c.withResolver R').fieldType id) := by
  rw [Context.fieldType, Context.fieldType]
  rcases h.declOf?_cases hid with hd | ⟨decl, hd, hd'⟩
  · rw [hd]
    exact .unknown _
  · rw [hd, hd']
    refine related_kind fun k _ => ?_
    split
    · exact h.denotedOr .unknown _
    · exact h.request _
    · exact .unknown _

theorem structLiteralType :
    Related reply reply' Ty.Blurs (c.structLiteralType id)
      ((c.withResolver R').structLiteralType id) := by
  rw [Context.structLiteralType, Context.structLiteralType]
  rcases h.declOf?_cases hid with hd | ⟨decl, hd, hd'⟩
  · rw [hd]
    exact .unknown _
  · rw [hd, hd']
    refine related_kind fun k _ => ?_
    split
    · exact h.itemType decl
    · exact h.variantType decl
    · exact .unknown _

theorem methodCallType :
    Related reply reply' Ty.Blurs (c.methodCallType id)
      ((c.withResolver R').methodCallType id) := by
  rw [Context.methodCallType, Context.methodCallType]
  rcases h.declOf?_cases hid with hd | ⟨decl, hd, hd'⟩
  · rw [hd]
    exact .unknown _
  · rw [hd, hd']
    refine related_kind fun k _ => ?_
    split
    · exact (h.fnType decl).bind fun a b hab => .done hab.ret
    · exact .unknown _

omit hid

theorem constructed? (callee : NodeId) :
    Related reply reply'
      (fun o o' => o = o' ∨ o = none ∧ c.declOf? callee = none ∧
        ∃ p, c.tree.kind? callee = some (.expr (.path p)))
      (c.constructed? callee) ((c.withResolver R').constructed? callee) := by
  refine related_kind fun k hk => ?_
  split
  · rename_i p
    rcases h.declOf?_cases (SyntaxTree.lt_of_kind? hk) with hd | ⟨decl, hd, hd'⟩
    · rw [hd]
      intro o o' ho _
      cases ho
      exact .inr ⟨rfl, rfl, p, hk⟩
    · rw [hd, hd']
      exact related_kind fun _ _ => .done (.inl rfl)
  · exact .done (.inl rfl)

/-- A callee that may be a variant on the other side has no known declaration on this one, so that
its type, which is asked for here, is unknown. -/
theorem callType (callee : NodeId) :
    Related reply reply' Ty.Blurs (c.callType callee) ((c.withResolver R').callType callee) := by
  refine (h.constructed? callee).bind fun o o' ho => ?_
  rcases ho with rfl | ⟨rfl, hd, p, hk⟩
  · cases o with
    | none => exact (h.request _).bind fun a b hab => .done hab.ret
    | some variant => exact h.variantType variant
  · intro a b ha _
    obtain ⟨ty, hty, ha⟩ := outcome_bind_ok_iff.mp ha
    rw [Derivation.exprType, outcome_request] at hty
    cases h.unresolved hk hd hty
    cases ha
    exact .unknown b

theorem exprTypeOf (hid : id.index < c.tree.size) (e : Expr) :
    Related reply reply' Ty.Blurs (c.exprTypeOf id e) ((c.withResolver R').exprTypeOf id e) := by
  cases e with
  | lit l => exact .done (.refl _)
  | unit => exact .done (.refl _)
  | path _ => exact h.pathType hid
  | field _ _ => exact h.fieldType hid
  | struct _ _ _ => exact h.structLiteralType hid
  | unary op operand => exact h.unaryType op operand
  | binary op _ _ => exact .done (.refl _)
  | paren inner => exact h.request _
  | tuple elems => exact (Related.forEach fun _ => h.request _).map fun _ _ hs => hs.ofElems
  | call callee _ => exact h.callType callee
  | methodCall _ _ _ => exact h.methodCallType hid
  | block inner => exact h.blockType inner
  | branch _ thenBlock elseBranch => exact h.branchType thenBlock elseBranch
  | whileLoop _ _ | loop _ | forLoop _ _ _ => exact .done (.refl _)
  | array _ | index _ _ | cast _ _ | select _ _ | closure _ _ _ | returnWith _ | breakWith _
  | continueLoop => exact .unknown _

theorem exprRule (id : NodeId) :
    Related reply reply' Ty.Blurs (c.exprRule id) ((c.withResolver R').exprRule id) := by
  refine related_kind fun k hk => ?_
  split
  · exact h.exprTypeOf (SyntaxTree.lt_of_kind? hk) _
  · exact .unknown _

end Improves

end TypeDerivation.Context
