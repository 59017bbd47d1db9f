import TypeDerivation.Derivation.Expression
import TypeDerivation.Proofs.Relabelling.Derivation

namespace TypeDerivation.Context.Echoes

open TypeDerivation.Derivation

variable {ρ : Relabelling} {c c' : Context} {reply reply' : Replies}
  (h : c.Echoes ρ c' reply reply')
include h

theorem literalType {l : Literal} (hl : c.tree.Mentions l.text) :
    c'.literalType (l.relabel ρ) = (c.literalType l).relabel ρ := by
  rw [Context.literalType, Context.literalType, Literal.relabel, h.settings, h.tree.text hl]
  cases l.kind with
  | int =>
    cases (Numeral.ofInt (c.tree.text l.text)).suffix with
    | none => simp only [Option.elim_none, Ty.relabel]
    | some k => exact (Ty.relabel_ofNumeric k).symm
  | float =>
    cases (Numeral.ofFloat (c.tree.text l.text)).suffix with
    | none => simp only [Option.elim_none, Ty.relabel]
    | some k => exact (Ty.relabel_ofNumeric k).symm
  | str | char | byte | byteStr | bool _ => simp only [Ty.relabel]

theorem pathType {id : NodeId} {k : NodeKind} (hk : c.tree.kind? id = some k) :
    Mirrored ρ reply reply' (Ty.relabel ρ) (c.pathType id) (c'.pathType (ρ.node id)) := by
  rw [Context.pathType, Context.pathType, h.declOf? hk]
  cases c.declOf? id with
  | none => exact .unknown
  | some decl => exact h.request (.entity decl)

theorem fieldType {id : NodeId} {k : NodeKind} (hk : c.tree.kind? id = some k) :
    Mirrored ρ reply reply' (Ty.relabel ρ) (c.fieldType id) (c'.fieldType (ρ.node id)) := by
  rw [Context.fieldType, Context.fieldType, h.declOf? hk]
  cases c.declOf? id with
  | none => exact .unknown
  | some decl =>
    apply h.kind_bind
    intro k _
    cases k with
    | decl d =>
      cases d with
      | field _ ty => exact h.denotedOr (by rw [Ty.relabel]) ty
      | tupleField ty => exact h.denotedType ty
      | _ => exact .unknown
    | _ => exact .unknown

theorem structLiteralType {id : NodeId} {k : NodeKind} (hk : c.tree.kind? id = some k) :
    Mirrored ρ reply reply' (Ty.relabel ρ) (c.structLiteralType id)
      (c'.structLiteralType (ρ.node id)) := by
  rw [Context.structLiteralType, Context.structLiteralType, h.declOf? hk]
  cases c.declOf? id with
  | none => exact .unknown
  | some decl =>
    apply h.kind_bind
    intro k _
    cases k with
    | item i =>
      cases i with
      | struct _ _ _ => exact h.itemType decl
      | _ => exact .unknown
    | decl d =>
      cases d with
      | variant _ _ => exact h.variantType decl
      | _ => exact .unknown
    | _ => exact .unknown

theorem unaryType (op : UnaryOp) (operand : Option NodeId) :
    Mirrored ρ reply reply' (Ty.relabel ρ) (unaryType op operand)
      (Context.unaryType op (operand.map ρ.node)) := by
  cases operand with
  | none => exact .unknown
  | some operand =>
    cases op with
    | ref mutable => exact (h.exprType operand).map fun _ => by rw [Ty.relabel]
    | deref | neg | not => exact h.exprType operand
    | box => exact .unknown

theorem constructed? (callee : NodeId) :
    Mirrored ρ reply reply' (Option.map ρ.node) (c.constructed? callee)
      (c'.constructed? (ρ.node callee)) := by
  apply h.kind_bind
  intro k hk
  cases k with
  | expr e =>
    cases e with
    | path p =>
      simp only [NodeKind.relabel, Expr.relabel]
      rw [h.declOf? hk]
      cases c.declOf? callee with
      | none => exact .done rfl
      | some decl =>
        apply h.kind_bind
        intro k _
        rw [k.isVariant_relabel]
        cases k.isVariant with
        | true => exact .done rfl
        | false => exact .done rfl
    | _ => exact .done rfl
  | _ => exact .done rfl

theorem callType (callee : NodeId) :
    Mirrored ρ reply reply' (Ty.relabel ρ) (c.callType callee) (c'.callType (ρ.node callee)) := by
  apply (h.constructed? callee).bind
  intro o
  cases o with
  | none =>
    apply (h.exprType callee).bind
    intro ty
    exact .done ty.relabel_ret.symm
  | some variant => exact h.variantType variant

theorem methodCallType {id : NodeId} {k : NodeKind} (hk : c.tree.kind? id = some k) :
    Mirrored ρ reply reply' (Ty.relabel ρ) (c.methodCallType id)
      (c'.methodCallType (ρ.node id)) := by
  rw [Context.methodCallType, Context.methodCallType, h.declOf? hk]
  cases c.declOf? id with
  | none => exact .unknown
  | some decl =>
    apply h.kind_bind
    intro k _
    rw [k.hasSignature_relabel]
    cases k.hasSignature with
    | true =>
      apply (h.fnType decl).bind
      intro ty
      exact .done ty.relabel_ret.symm
    | false => exact .unknown

theorem blockType (inner : Option NodeId) :
    Mirrored ρ reply reply' (Ty.relabel ρ) (c.blockType inner)
      (c'.blockType (inner.map ρ.node)) := by
  cases inner with
  | none => exact .unknown
  | some block =>
    apply h.kind_bind
    intro k _
    cases k with
    | block _ tail =>
      cases tail with
      | none => exact .done (by rw [Ty.relabel])
      | some tail => exact h.exprType tail
    | _ => exact .unknown

theorem branchType (thenBlock elseBranch : Option NodeId) :
    Mirrored ρ reply reply' (Ty.relabel ρ) (branchType thenBlock elseBranch)
      (Context.branchType (thenBlock.map ρ.node) (elseBranch.map ρ.node)) := by
  cases elseBranch with
  | none => cases thenBlock <;> exact .done (by rw [Ty.relabel])
  | some _ =>
    cases thenBlock with
    | none => exact .unknown
    | some thenBlock => exact h.exprType thenBlock

theorem exprRule (id : NodeId) :
    Mirrored ρ reply reply' (Ty.relabel ρ) (c.exprRule id) (c'.exprRule (ρ.node id)) := by
  apply h.kind_bind
  intro k hk
  cases k with
  | expr e =>
    cases e with
    | lit l => exact .done (h.literalType ⟨id, _, hk, List.mem_cons_self⟩)
    | path _ => exact h.pathType hk
    | field _ _ => exact h.fieldType hk
    | struct _ _ _ => exact h.structLiteralType hk
    | unary op operand => exact h.unaryType op operand
    | binary op _ _ =>
      apply Mirrored.done
      rw [binaryType]
      split <;> rw [Ty.relabel]
    | paren inner => exact h.exprType inner
    | tuple elems =>
      exact (Mirrored.forEach h.exprType elems).map fun tys => (Ty.relabel_ofElems tys).symm
    | call callee _ => exact h.callType callee
    | methodCall _ _ _ => exact h.methodCallType hk
    | block inner => exact h.blockType inner
    | branch _ thenBlock elseBranch => exact h.branchType thenBlock elseBranch
    | unit | whileLoop _ _ | loop _ | forLoop _ _ _ => exact .done (by rw [Ty.relabel])
    | array _ | index _ _ | cast _ _ | select _ _ | closure _ _ _ | returnWith _ | breakWith _
    | continueLoop => exact .unknown
  | _ => exact .unknown

end TypeDerivation.Context.Echoes
