import TypeDerivation.Proofs.Engine.Safety
import TypeDerivation.Ty.Text

/-!
The types that an engine answers. Whatever the names resolve to, no tuple in them is empty, and a
nominal type in them has the name of a declaration of its sort.
-/

namespace TypeDerivation

namespace Ty

/-- `part.Part ty`: the type `ty` is `part`, or `part` occurs in it. -/
inductive Part (part : Ty) : Ty → Prop where
  | self : Part part part
  | elem {ty : Ty} {elems : List Ty} : ty ∈ elems → Part part ty → Part part (.tuple elems)
  | inner {ty : Ty} (mutable : Bool) : Part part ty → Part part (.ref ty mutable)
  | param {ty : Ty} {params : List Ty} (ret : Ty) :
    ty ∈ params → Part part ty → Part part (.fn params ret)
  | ret {ty : Ty} (params : List Ty) : Part part ty → Part part (.fn params ty)

variable {t : SyntaxTree} {ty : Ty} {decl : NodeId}

theorem Formed.part {x : Ty} (h : ty.Formed t) (hp : x.Part ty) : x.Formed t := by
  induction hp with
  | self => exact h
  | elem hmem _ ih =>
    cases h with
    | tuple _ helems => exact ih (helems _ hmem)
  | inner mutable _ ih =>
    cases h with
    | ref _ hinner => exact ih hinner
  | param ret hmem _ ih =>
    cases h with
    | fn hparams _ => exact ih (hparams _ hmem)
  | ret params _ ih =>
    cases h with
    | fn _ hret => exact ih hret

theorem Formed.text_eq (h : ty.Formed t) (hd : ty.decl? = some decl) :
    ∃ name, t.name? decl = some name ∧ ty.text t = t.text name := by
  have hname {kind : NodeKind} {name : Name} (hk : t.kind? decl = some kind)
      (hn : kind.name? = some name) : t.name? decl = some name ∧ t.declText decl = t.text name := by
    have hname : t.name? decl = some name := by rw [SyntaxTree.name?, hk, Option.bind_some, hn]
    exact ⟨hname, by rw [SyntaxTree.declText, hname, Option.elim_some]⟩
  cases h with
  | struct hk | enum hk | trait hk | typeParam hk =>
    cases hd
    rw [text]
    exact ⟨_, hname hk rfl⟩
  | _ => cases hd

end Ty

namespace Context

open TypeDerivation.Derivation

variable {c : Context} {α : Type} {d : Derivation α} {g : Guards} {a : α}

/-- An answer has what it has for well-formed replies, whichever guards it was given under. -/
theorem eval_of_meets {Q : α → Prop} (ht : c.tree.Ordered) (hR : c.resolver.Within c.tree)
    (hd : d.Meets (Request.Proper c.tree) (Ty.Formed c.tree) Q) (h : (c.eval d g).1 = .ok a) :
    Q a := by
  rw [eval, run_eq_replies] at h
  exact hd.of_outcome (fun r ty hr he => formed_of_replies ht hR hr he) h

theorem not_ok_of_not_item {id : NodeId} {ty : Ty} (hid : ∀ i, c.tree.kind? id ≠ some (.item i)) :
    (c.answerQuery (.item id) g).1 ≠ .ok ty := by
  intro h
  cases hk : c.tree.kind? id with
  | none =>
    rw [answerQuery, queried, itemType, kind, hk] at h
    cases h
  | some kind =>
    have hi : kind.isItem = false := by
      cases kind with
      | item i => exact absurd hk (hid i)
      | _ => rfl
    rw [answerQuery, queried, itemType_eq_stop hk hi] at h
    cases h

end Context

/-- Every type that a query answers is well formed, and a nominal type in it shows the name of its
declaration; a shape lists something if it is a tuple, and its parts come earlier in the tree. -/
theorem answers_formed {t : SyntaxTree} (ht : t.Built) {R : Resolver} (hR : R.Tabled t)
    (s : Settings) (i : Inference) :
    let c : Context := ⟨t, R, s, i⟩
    (∀ q : Query, q.Proper t → c.Returns (c.queried q) ∧
      ∀ g ty, (c.answerQuery q g).1 = .ok ty → ty.Formed t) ∧
    (∀ id g ty, (c.answerQuery (.item id) g).1 = .ok ty → ty.Formed t) ∧
    (∀ offset, c.Returns (c.typeAtOffset offset) ∧
      ∀ g id ty, (c.eval (c.typeAtOffset offset) g).1 = .ok (some (id, ty)) → ty.Formed t) ∧
    (∀ id, id.index < t.size → c.Returns (c.shape id) ∧
      ∀ g shape, (c.eval (c.shape id) g).1 = .ok shape →
        shape ≠ .tuple [] ∧ ∀ x ∈ shape.parts, x.index < id.index) ∧
    ∀ (ty part : Ty) decl, ty.Formed t → part.Part ty → part.decl? = some decl →
      ∃ name, t.name? decl = some name ∧ part.text t = t.text name := by
  intro c
  have ho : c.tree.Ordered := ht.ordered
  have hW : c.resolver.Within c.tree := hR.within ho
  have hproper (q : Query) (hq : q.Proper t) (g : Guards) (ty : Ty)
      (h : (c.answerQuery q g).1 = .ok ty) : ty.Formed t :=
    Context.eval_of_meets ho hW (Context.meets_queried ho hW hq) h
  refine ⟨?_, ?_, ?_, ?_, ?_⟩
  · intro q hq
    exact ⟨Context.returns_of_meets ho hW (Context.meets_queried ho hW hq), hproper q hq⟩
  · intro id g ty h
    -- Nothing is asked of `id`, so it may also be no item; then there is no answer.
    by_cases hid : ∃ item, t.kind? id = some (.item item)
    · exact hproper (.item id) hid g ty h
    · exact absurd h (Context.not_ok_of_not_item fun item hk => hid ⟨item, hk⟩)
  · intro offset
    have hmeets := Context.meets_typeAtOffset (c := c) offset
    refine ⟨Context.returns_of_meets ho hW hmeets, ?_⟩
    intro g id ty h
    exact Context.eval_of_meets ho hW hmeets h (id, ty) rfl
  · intro id hid
    have hmeets := Context.meets_shape (c := c) (P := Request.Proper t) (W := Ty.Formed t) ho hid
    refine ⟨Context.returns_of_meets ho hW hmeets, ?_⟩
    intro g shape h
    exact Context.eval_of_meets (Q := fun s => s ≠ .tuple [] ∧ ∀ x ∈ s.parts, x.index < id.index)
      ho hW hmeets h
  · intro ty part decl hty hp hd
    exact (hty.part hp).text_eq hd

/-- A struct, and a tuple around a path that names it. -/
def wrappedStruct : SyntaxTree :=
  .afterSteps .empty [.intern "P", .node (.item (.struct ⟨7⟩ [] [])),
    .shorthand (.pathTypeExpr "P"), .node (.typeExpr (.tuple [⟨1⟩]))]

def wrappedStructNames : ResolvedNames := ResolvedNames.empty.bindPath "P" ⟨0⟩

theorem wrappedStruct_built : wrappedStruct.Built := ⟨_, rfl⟩

theorem wrappedStructNames_within : wrappedStructNames.Within wrappedStruct :=
  (ResolvedNames.within_empty _).bindPath _ (by decide)

def wrappedStructContext : Context :=
  ⟨wrappedStruct, wrappedStructNames.resolver, .standard, .structural⟩

theorem answer_wrappedStruct : wrappedStructContext.answerQuery (.typeExpr ⟨2⟩) .idle =
    (.ok (.tuple [.struct ⟨0⟩]), .idle) := rfl

theorem answers_formed_wrappedStruct :
    let c := wrappedStructContext
    let ty : Ty := .tuple [.struct ⟨0⟩]
    wrappedStruct.Built ∧ c.resolver.Tabled wrappedStruct ∧
      (Query.typeExpr ⟨2⟩).Proper wrappedStruct ∧
      c.answerQuery (.typeExpr ⟨2⟩) .idle = (.ok ty, .idle) ∧ ty.Formed wrappedStruct ∧
      (Ty.struct ⟨0⟩).Part ty ∧
      (∃ name, wrappedStruct.name? ⟨0⟩ = some name ∧
        (Ty.struct ⟨0⟩).text wrappedStruct = wrappedStruct.text name) ∧
      c.Returns (c.shape ⟨2⟩) ∧ c.Returns (c.typeAtOffset 0) := by
  intro c ty
  have hN := Resolver.Tabled.names wrappedStructNames_within
  have hq : (Query.typeExpr ⟨2⟩).Proper wrappedStruct := by
    rw [Query.Proper]
    decide
  have h := answers_formed wrappedStruct_built hN .standard .structural
  have hformed : ty.Formed wrappedStruct :=
    (h.1 (.typeExpr ⟨2⟩) hq).2 .idle ty (congrArg Prod.fst answer_wrappedStruct)
  have hpart : (Ty.struct ⟨0⟩).Part ty := .elem List.mem_cons_self .self
  exact ⟨wrappedStruct_built, hN, hq, answer_wrappedStruct, hformed, hpart,
    h.2.2.2.2 ty (.struct ⟨0⟩) ⟨0⟩ hformed hpart rfl, (h.2.2.2.1 ⟨2⟩ (by decide)).1,
    (h.2.2.1 0).1⟩

end TypeDerivation
