import TypeDerivation.Proofs.Engine.Answers
import TypeDerivation.Proofs.Path.Spelling
import TypeDerivation.Tree.Step
import TypeDerivation.TypeExpr.Text

/-!
A type expression and the type that it denotes have one text, as long as it is made of parts that
have types of their own.
-/

namespace TypeDerivation

namespace SyntaxTree

variable {t : SyntaxTree} {id : NodeId} {e : TypeExpr}

namespace Ordered

variable (ht : t.Ordered)
include ht

theorem typeExprTextWithin_congr {m n : Nat} (hm : id.index < m) (hn : id.index < n) :
    t.typeExprTextWithin m id = t.typeExprTextWithin n id := by
  induction m generalizing n id with
  | zero => omega
  | succ m ih =>
    obtain ⟨n, rfl⟩ : ∃ k, n = k + 1 := ⟨n - 1, by omega⟩
    rw [typeExprTextWithin, typeExprTextWithin]
    cases hk : t.kind? id with
    | none => rfl
    | some kind =>
      cases kind with
      | typeExpr e =>
        have hpart : ∀ x ∈ e.children, t.typeExprTextWithin m x = t.typeExprTextWithin n x := by
          intro x hx
          have := ht.child_lt hk hx
          exact ih (by omega) (by omega)
        cases e with
        | path p => rfl
        | never => rfl
        | infer => rfl
        | tuple elems => exact congrArg Text.tupled (List.map_congr_left hpart)
        | ref inner _ | ptr inner _ | array inner _ | slice inner =>
          cases inner with
          | none => rfl
          | some x => simp [hpart x (by simp [TypeExpr.children])]
        | fnPtr params ret =>
          have hparams : ∀ x ∈ params, _ := fun x hx => hpart x (by simp [TypeExpr.children, hx])
          simp only [List.map_congr_left hparams]
          cases ret with
          | none => rfl
          | some x => simp [hpart x (by simp [TypeExpr.children])]
      | _ => rfl

theorem typeExprText_eq (hk : t.kind? id = some (.typeExpr e)) :
    t.typeExprText id = t.typeExprTextWithin (id.index + 1) id :=
  ht.typeExprTextWithin_congr (lt_of_kind? hk) (Nat.lt_succ_self _)

theorem typeExprTextWithin_of_child {child : NodeId} (hk : t.kind? id = some (.typeExpr e))
    (hc : child ∈ e.children) : t.typeExprTextWithin id.index child = t.typeExprText child := by
  have hlt := ht.child_lt hk hc
  exact ht.typeExprTextWithin_congr hlt (Nat.lt_trans hlt (lt_of_kind? hk))

theorem typeExprText_single {word : Name}
    (hk : t.kind? id = some (.typeExpr (.path (.single word)))) :
    t.typeExprText id = t.text word := by
  rw [ht.typeExprText_eq hk, typeExprTextWithin, hk]
  exact SymbolPath.render_single t.names word

theorem typeExprText_tuple {elems : List NodeId}
    (hk : t.kind? id = some (.typeExpr (.tuple elems))) :
    t.typeExprText id = Text.tupled (elems.map t.typeExprText) := by
  have helems : ∀ x ∈ elems, t.typeExprTextWithin id.index x = t.typeExprText x :=
    fun x hx => ht.typeExprTextWithin_of_child hk hx
  rw [ht.typeExprText_eq hk, typeExprTextWithin, hk, ← List.map_congr_left helems]

theorem typeExprText_ref {inner : NodeId} {mutable : Bool}
    (hk : t.kind? id = some (.typeExpr (.ref (some inner) mutable))) :
    t.typeExprText id = refMark mutable ++ t.typeExprText inner := by
  have hinner : inner ∈ (TypeExpr.ref (some inner) mutable).children := by simp [TypeExpr.children]
  rw [ht.typeExprText_eq hk, typeExprTextWithin, hk, ← ht.typeExprTextWithin_of_child hk hinner]
  rfl

end Ordered
end SyntaxTree

/-- The declarations that are types of their own. -/
def NodeKind.declaresType : NodeKind → Bool
  | item (.struct ..) | item (.enum ..) | item (.trait ..) | decl (.typeParam _) => true
  | _ => false

namespace Context

open TypeDerivation.Derivation

/-- A type expression that is made of tuples, of references and of names, where a name is that of a
primitive or of the declaration that it stands for. -/
inductive Plain (c : Context) : NodeId → Prop where
  | tuple {id : NodeId} {elems : List NodeId} :
    c.tree.kind? id = some (.typeExpr (.tuple elems)) → (∀ x ∈ elems, Plain c x) → Plain c id
  | ref {id inner : NodeId} {mutable : Bool} :
    c.tree.kind? id = some (.typeExpr (.ref (some inner) mutable)) → Plain c inner → Plain c id
  | primitive {id : NodeId} {word : Name} {p : Primitive} :
    c.tree.kind? id = some (.typeExpr (.path (.single word))) → p.spelling = c.tree.text word →
      Plain c id
  | declared {id decl : NodeId} {word : Name} {kind : NodeKind} :
    c.tree.kind? id = some (.typeExpr (.path (.single word))) →
      c.resolver.path c.tree (.single word) id = some decl → c.tree.kind? decl = some kind →
      kind.declaresType = true → c.tree.declText decl = c.tree.text word → Plain c id

variable {c : Context} {id : NodeId} {word : Name}

theorem eval_shape {e : TypeExpr} (hk : c.tree.kind? id = some (.typeExpr e)) (g : Guards) :
    c.eval (c.shape id) g = (.ok (c.typeExprShape e), g) := by
  rw [shape, kind_eq_done hk]
  rfl

theorem exists_entityRule_of_declaresType {decl : NodeId} {kind : NodeKind}
    (hk : c.tree.kind? decl = some kind) (h : kind.declaresType = true) :
    ∃ ty, c.entityRule decl = done ty ∧ ty.text c.tree = c.tree.declText decl := by
  unfold NodeKind.declaresType at h
  split at h
  · exact ⟨.struct decl, by rw [entityRule, kind_eq_done hk]; rfl, by rw [Ty.text]⟩
  · exact ⟨.enum decl, by rw [entityRule, kind_eq_done hk]; rfl, by rw [Ty.text]⟩
  · exact ⟨.trait decl, by rw [entityRule, kind_eq_done hk]; rfl, by rw [Ty.text]⟩
  · exact ⟨.typeParam decl, by rw [entityRule, kind_eq_done hk]; rfl, by rw [Ty.text]⟩
  · cases h

theorem shapeType_tuple (elems : List NodeId) :
    c.shapeType id (c.typeExprShape (.tuple elems)) = Ty.ofElems <$> forEach denotedType elems := by
  cases elems <;> rfl

theorem shapeType_path {p : SymbolPath} {decl : NodeId}
    (h : c.resolver.path c.tree p id = some decl) : c.shapeType id (.path p) = entityType decl := by
  rw [shapeType, h]

section

variable (hs : c.settings.primitives = .standard)
include hs

theorem pathShape_of_spelling {p : Primitive} (hp : p.spelling = c.tree.text word) :
    c.pathShape (.single word) = .primitive p := by
  rw [pathShape, SymbolPath.singleName?_eq_some_iff.mpr rfl, Option.bind_some, hs,
    PrimitiveTable.get?_standard_iff.mpr hp]

theorem pathShape_of_forall_ne (h : ∀ p : Primitive, p.spelling ≠ c.tree.text word) :
    c.pathShape (.single word) = .path (.single word) := by
  apply pathShape_eq_path
  rintro _ ⟨⟩
  rw [hs, Option.eq_none_iff_forall_ne_some]
  intro p hp
  exact h p (PrimitiveTable.get?_standard_iff.mp hp)

theorem text_pathShape_single :
    (c.pathShape (.single word)).text c.tree = c.tree.text word := by
  by_cases h : ∃ p : Primitive, p.spelling = c.tree.text word
  · obtain ⟨p, hp⟩ := h
    rw [pathShape_of_spelling hs hp, Shape.text, hp]
  · rw [pathShape_of_forall_ne hs (not_exists.mp h), Shape.text]
    exact SymbolPath.render_single c.tree.names word

variable (ht : c.tree.Ordered)
include ht

theorem Plain.exists_shape (h : c.Plain id) : ∃ e, c.tree.kind? id = some (.typeExpr e) ∧
    (c.typeExprShape e).text c.tree = c.tree.typeExprText id := by
  cases h with
  | @tuple _ elems hk _ =>
    refine ⟨_, hk, ?_⟩
    rw [ht.typeExprText_tuple hk]
    cases elems <;> rfl
  | ref hk _ => exact ⟨_, hk, (ht.typeExprText_ref hk).symm⟩
  | primitive hk _ | declared hk _ _ _ _ =>
    refine ⟨_, hk, ?_⟩
    rw [ht.typeExprText_single hk]
    exact text_pathShape_single hs

variable (hmax : c.settings.maxDepth = none)
include hmax

theorem exists_type_of_spelling {p : Primitive}
    (hk : c.tree.kind? id = some (.typeExpr (.path (.single word))))
    (hp : p.spelling = c.tree.text word) : ∃ ty, c.answers .idle (.typeExpr id) = .ok ty ∧
      ty.text c.tree = c.tree.typeExprText id := by
  refine ⟨p.toTy, ?_, ?_⟩
  · rw [answers_typeExpr ht hmax, typeExprRule_of_kind? hk, typeExprShape,
      pathShape_of_spelling hs hp]
    rfl
  · rw [Ty.text_toTy, hp, ht.typeExprText_single hk]

theorem Plain.exists_type (h : c.Plain id) : ∃ ty, c.answers .idle (.typeExpr id) = .ok ty ∧
    ty.text c.tree = c.tree.typeExprText id := by
  -- both texts are put together from those of the parts in the same way
  induction h with
  | @tuple id elems hk _ ih =>
    choose! f hf using ih
    refine ⟨.ofElems (elems.map f), ?_, ?_⟩
    · rw [answers_typeExpr ht hmax, typeExprRule_of_kind? hk, shapeType_tuple]
      refine outcome_map_ok_iff.mpr ⟨elems.map f, outcome_forEach_ok_iff.mpr ?_, rfl⟩
      rw [List.forall₂_map_right_iff, List.forall₂_same]
      intro x hx
      rw [denotedType, outcome_request, (hf x hx).1]
    · rw [Ty.text_ofElems, List.map_map, ht.typeExprText_tuple hk]
      exact congrArg Text.tupled (List.map_congr_left fun x hx => (hf x hx).2)
  | @ref id inner mutable hk _ ih =>
    obtain ⟨ty, hty, htext⟩ := ih
    refine ⟨.ref ty mutable, ?_, ?_⟩
    · rw [answers_typeExpr ht hmax, typeExprRule_of_kind? hk, typeExprShape, shapeType]
      refine outcome_map_ok_iff.mpr ⟨ty, ?_, rfl⟩
      rw [denotedType, outcome_request, hty]
    · rw [Ty.text, htext, ht.typeExprText_ref hk]
  | primitive hk hp => exact exists_type_of_spelling hs ht hmax hk hp
  | @declared id decl word kind hk hpath hdecl hkind htext =>
    by_cases h : ∃ p : Primitive, p.spelling = c.tree.text word
    · obtain ⟨p, hp⟩ := h
      exact exists_type_of_spelling hs ht hmax hk hp
    · obtain ⟨ty, hrule, hty⟩ := exists_entityRule_of_declaresType hdecl hkind
      refine ⟨ty, ?_, ?_⟩
      · rw [answers_typeExpr ht hmax, typeExprRule_of_kind? hk, typeExprShape,
          pathShape_of_forall_ne hs (not_exists.mp h), shapeType_path hpath, entityType,
          outcome_request, answers_entity ht, hmax, rule, hrule]
        rfl
      · rw [hty, htext, ht.typeExprText_single hk]

end

end Context

/-- The text of what a plain type expression says before its names are resolved is the text of the
type that it denotes. -/
theorem printers_agree {t : SyntaxTree} (ht : t.Built) (R : Resolver) (s : Settings)
    (i : Inference) :
    let c : Context := ⟨t, R, { s with primitives := .standard, maxDepth := none }, i⟩
    ∀ id, c.Plain id → ∃ shape ty, c.eval (c.shape id) .idle = (.ok shape, .idle) ∧
      c.answerQuery (.typeExpr id) .idle = (.ok ty, .idle) ∧ shape.text t = ty.text t := by
  intro c id h
  have ho : c.tree.Ordered := ht.ordered
  obtain ⟨e, hk, hshape⟩ := h.exists_shape rfl ho
  obtain ⟨ty, hty, htext⟩ := h.exists_type rfl ho rfl
  refine ⟨c.typeExprShape e, ty, Context.eval_shape hk .idle, ?_, hshape.trans htext.symm⟩
  rw [Context.answerQuery_eq rfl, hty]

/-- The type expression `(&mut (P,), (), u8)` after the struct `P`. -/
def mixedTuple : SyntaxTree :=
  .afterSteps .empty [.intern "P", .intern "u8", .node (.item (.struct ⟨7⟩ [] [])),
    .node (.typeExpr (.path (.single ⟨7⟩))), .node (.typeExpr (.tuple [⟨1⟩])),
    .node (.typeExpr (.ref (some ⟨2⟩) true)), .node (.typeExpr (.tuple [])),
    .node (.typeExpr (.path (.single ⟨8⟩))), .node (.typeExpr (.tuple [⟨3⟩, ⟨4⟩, ⟨5⟩]))]

theorem mixedTuple_built : mixedTuple.Built := ⟨_, rfl⟩

def mixedTupleContext : Context :=
  ⟨mixedTuple, (ResolvedNames.empty.bindPath "P" ⟨0⟩).resolver, .standard, .structural⟩

set_option maxRecDepth 4096 in
theorem plain_mixedTuple : mixedTupleContext.Plain ⟨6⟩ := by
  have hpath : mixedTupleContext.resolver.path mixedTuple (.single ⟨7⟩) ⟨1⟩ = some ⟨0⟩ := rfl
  have hstruct : mixedTupleContext.Plain ⟨1⟩ := .declared rfl hpath rfl rfl rfl
  have hone : mixedTupleContext.Plain ⟨2⟩ := .tuple rfl (by simpa using hstruct)
  have hempty : mixedTupleContext.Plain ⟨4⟩ := .tuple rfl (by simp)
  have hprimitive : mixedTupleContext.Plain ⟨5⟩ := .primitive (p := .int .u8) rfl rfl
  exact .tuple rfl (by simpa using ⟨.ref rfl hone, hempty, hprimitive⟩)

set_option maxRecDepth 4096 in
theorem answer_mixedTuple : mixedTupleContext.answerQuery (.typeExpr ⟨6⟩) .idle =
    (.ok (.tuple [.ref (.tuple [.struct ⟨0⟩]) true, .unit, .int .u8]), .idle) := rfl

set_option maxRecDepth 4096 in
theorem printers_agree_mixedTuple :
    let c := mixedTupleContext
    let ty : Ty := .tuple [.ref (.tuple [.struct ⟨0⟩]) true, .unit, .int .u8]
    mixedTuple.Built ∧ c.Plain ⟨6⟩ ∧
      c.eval (c.shape ⟨6⟩) .idle = (.ok (.tuple [⟨3⟩, ⟨4⟩, ⟨5⟩]), .idle) ∧
      c.answerQuery (.typeExpr ⟨6⟩) .idle = (.ok ty, .idle) ∧
      (Shape.tuple [⟨3⟩, ⟨4⟩, ⟨5⟩]).text mixedTuple = ty.text mixedTuple := by
  intro c ty
  have hshape : c.eval (c.shape ⟨6⟩) .idle = (.ok (.tuple [⟨3⟩, ⟨4⟩, ⟨5⟩]), .idle) := rfl
  obtain ⟨shape, ty', hs, hty, htext⟩ := printers_agree mixedTuple_built mixedTupleContext.resolver
    .standard .structural ⟨6⟩ plain_mixedTuple
  cases hs.symm.trans hshape
  cases hty.symm.trans answer_mixedTuple
  exact ⟨mixedTuple_built, plain_mixedTuple, hshape, answer_mixedTuple, htext⟩

end TypeDerivation
