import TypeDerivation.Proofs.Derivation.Requests

namespace TypeDerivation.Context

open TypeDerivation.Derivation Request

variable {c : Context} {id : NodeId} {P : Request → Prop}

theorem formed_literalType (l : Literal) : (c.literalType l).Formed c.tree := by
  rw [literalType]
  split
  · cases (Numeral.ofInt (c.tree.text l.text)).suffix with
    | none => exact .int _
    | some k => exact Ty.formed_ofNumeric k
  · cases (Numeral.ofFloat (c.tree.text l.text)).suffix with
    | none => exact .float _
    | some k => exact Ty.formed_ofNumeric k
  · exact .str
  · exact .char
  · exact .bool
  · exact .int _
  · exact .unknown

theorem formed_binaryType (op : BinaryOp) : (binaryType op).Formed c.tree := by
  rw [binaryType]
  split
  · exact .bool
  · exact .unknown

theorem meets_unaryType {op : UnaryOp} {operand : Option NodeId}
    (h : ∀ x ∈ operand, P (.expr x)) :
    (unaryType op operand).Meets P (Ty.Formed c.tree) (Ty.Formed c.tree) := by
  cases operand with
  | none => exact .done .unknown
  | some x =>
    cases op with
    | ref m => exact (Meets.request (h x rfl)).map fun _ => .ref m
    | deref | neg | not => exact .request (h x rfl)
    | box => exact .done .unknown

theorem meets_branchType {thenBlock elseBranch : Option NodeId}
    (h : ∀ x ∈ thenBlock, P (.expr x)) :
    (branchType thenBlock elseBranch).Meets P (Ty.Formed c.tree) (Ty.Formed c.tree) := by
  cases elseBranch with
  | none =>
    cases thenBlock with
    | none => exact .done .unit
    | some _ => exact .done .unit
  | some _ =>
    cases thenBlock with
    | none => exact .done .unknown
    | some x => exact .request (h x rfl)

variable (hR : c.resolver.Within c.tree) (hP : ∀ r, r.Shallow c.tree → P r)
include hR hP

theorem meets_pathType : (c.pathType id).Meets P (Ty.Formed c.tree) (Ty.Formed c.tree) := by
  rw [pathType]
  split
  · rename_i decl hd
    exact .request (hP _ (shallow_entity (hR.reference hd)))
  · exact .done .unknown

theorem meets_structLiteralType :
    (c.structLiteralType id).Meets P (Ty.Formed c.tree) (Ty.Formed c.tree) := by
  rw [structLiteralType]
  split
  · exact .done .unknown
  · rename_i decl hd
    apply (meets_kind (hR.reference hd)).bind
    intro k hk
    split
    · exact meets_itemType hk (hP _ (shallow_item hk))
    · exact meets_variantType hP decl
    · exact .done .unknown

omit hP in
theorem meets_constructed? (hid : id.index < c.tree.size) :
    (c.constructed? id).Meets P (Ty.Formed c.tree) fun _ => True := by
  rw [constructed?]
  apply (meets_kind hid).bind
  intro k hk
  split
  · split
    · rename_i decl hd
      exact (meets_kind (hR.reference hd)).bind fun _ _ => .done trivial
    · exact .done trivial
  · exact .done trivial

theorem meets_callType (hid : id.index < c.tree.size) (hcallee : P (.expr id)) :
    (c.callType id).Meets P (Ty.Formed c.tree) (Ty.Formed c.tree) := by
  rw [callType]
  apply (meets_constructed? hR hid).bind
  intro o _
  split
  · exact meets_variantType hP _
  · exact (Meets.request hcallee).bind fun ty hty => .done hty.ret

variable (ht : c.tree.Ordered)
include ht

theorem meets_fieldType :
    (c.fieldType id).Meets P (Ty.Formed c.tree) (Ty.Formed c.tree) := by
  rw [fieldType]
  split
  · exact .done .unknown
  · rename_i decl hd
    apply (meets_kind (hR.reference hd)).bind
    intro k hk
    split
    · refine meets_denotedOr .unknown fun ty hty => hP _ (shallow_typeExpr ?_)
      exact ht.child_lt_size hk (by simpa [NodeKind.children, Decl.children] using hty)
    · refine .request (hP _ (shallow_typeExpr ?_))
      exact ht.child_lt_size hk (by simp [NodeKind.children, Decl.children])
    · exact .done .unknown

theorem meets_methodCallType :
    (c.methodCallType id).Meets P (Ty.Formed c.tree) (Ty.Formed c.tree) := by
  rw [methodCallType]
  split
  · exact .done .unknown
  · rename_i decl hd
    apply (meets_kind (hR.reference hd)).bind
    intro k _
    split
    · exact (meets_fnType ht hP (hR.reference hd)).bind fun ty hty => .done hty.ret
    · exact .done .unknown

omit hR hP

theorem meets_blockType {inner : Option NodeId} (hin : ∀ x ∈ inner, x.index < c.tree.size)
    (h : ∀ x ∈ inner, ∀ y, y.index < x.index → P (.expr y)) :
    (c.blockType inner).Meets P (Ty.Formed c.tree) (Ty.Formed c.tree) := by
  cases inner with
  | none => exact .done .unknown
  | some block =>
    rw [blockType]
    apply (meets_kind (hin block rfl)).bind
    intro k hk
    split
    · refine .request (h block rfl _ (ht.child_lt hk ?_))
      simp [NodeKind.children]
    · exact .done .unit
    · exact .done .unknown

include hR

theorem meets_exprRule (hid : id.index < c.tree.size) :
    (c.exprRule id).Meets ((expr id).Follows c.tree) (Ty.Formed c.tree) (Ty.Formed c.tree) := by
  rw [exprRule]
  apply (meets_kind hid).bind
  intro k hk
  split
  · rename_i e
    have hP (r : Request) (hr : r.Shallow c.tree) : (expr id).Follows c.tree r :=
      follows_expr_of_shallow hr
    have hchild {x : NodeId} (hx : x ∈ e.children) : x.index < id.index := ht.child_lt hk hx
    have hasks {x : NodeId} (hx : x ∈ e.children) : (expr id).Follows c.tree (expr x) :=
      follows_expr (hchild hx) hid
    cases e with
    | lit l => exact .done (formed_literalType l)
    | unit => exact .done .unit
    | path _ => exact meets_pathType hR hP
    | field _ _ => exact meets_fieldType hR hP ht
    | struct _ _ _ => exact meets_structLiteralType hR hP
    | unary op operand =>
      exact meets_unaryType fun x hx => hasks (by simpa [Expr.children] using hx)
    | binary op _ _ => exact .done (formed_binaryType op)
    | paren inner => exact .request (hasks (by simp [Expr.children]))
    | tuple elems =>
      exact (Meets.forEach fun x hx => .request (hasks hx)).map fun _ h => Ty.formed_ofElems h.2
    | call callee _ =>
      have hc := hchild (x := callee) (by simp [Expr.children])
      exact meets_callType hR hP (Nat.lt_trans hc hid) (follows_expr hc hid)
    | methodCall _ _ _ => exact meets_methodCallType hR hP ht
    | block inner =>
      have hin {x : NodeId} (hx : x ∈ inner) : x.index < id.index :=
        hchild (by simpa [Expr.children] using hx)
      apply meets_blockType ht (fun x hx => Nat.lt_trans (hin hx) hid)
      intro x hx y hy
      exact follows_expr (Nat.lt_trans hy (hin hx)) hid
    | branch cond thenBlock elseBranch =>
      refine meets_branchType fun x hx => hasks ?_
      simp only [Expr.children, List.mem_append, Option.mem_toList]
      exact .inl (.inr hx)
    | whileLoop _ _ | loop _ | forLoop _ _ _ => exact .done .unit
    | array _ | index _ _ | cast _ _ | select _ _ | closure _ _ _ | returnWith _ | breakWith _
    | continueLoop => exact .done .unknown
  · exact .done .unknown

end TypeDerivation.Context
