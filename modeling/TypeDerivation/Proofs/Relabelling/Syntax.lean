import TypeDerivation.Node.Children
import TypeDerivation.Path.Spelling

/-!
Nodes with other numbers and texts with other names. What a node is stays the same; its children
and its names are those of the new numbering.
-/

namespace TypeDerivation

structure Relabelling where
  node : NodeId → NodeId
  name : Name → Name

section

variable (ρ : Relabelling)

def PathHead.relabel : PathHead → PathHead
  | named n => named (ρ.name n)
  | selfValue => selfValue
  | selfType => selfType
  | superModule => superModule
  | crateRoot => crateRoot

def SymbolPath.relabel (p : SymbolPath) : SymbolPath := ⟨p.head.relabel ρ, p.segments.map ρ.name⟩

def Literal.relabel (l : Literal) : Literal := ⟨l.kind, ρ.name l.text⟩

def Signature.relabel (s : Signature) : Signature where
  generics := s.generics.map ρ.node
  selfParam := s.selfParam.map ρ.node
  params := s.params.map ρ.node
  ret := s.ret.map ρ.node
  body := s.body.map ρ.node

def Item.relabel : Item → Item
  | struct n generics fields => struct (ρ.name n) (generics.map ρ.node) (fields.map ρ.node)
  | enum n generics body => enum (ρ.name n) (generics.map ρ.node) (body.map ρ.node)
  | typeAlias n generics target => typeAlias (ρ.name n) (generics.map ρ.node) (target.map ρ.node)
  | fn n sig => fn (ρ.name n) (sig.relabel ρ)
  | trait n generics members => trait (ρ.name n) (generics.map ρ.node) (members.map ρ.node)
  | impl generics traitRef target members =>
    impl (generics.map ρ.node) (traitRef.map ρ.node) (target.map ρ.node) (members.map ρ.node)
  | const n ty value => const (ρ.name n) (ty.map ρ.node) (value.map ρ.node)
  | static n mutable ty value => static (ρ.name n) mutable (ty.map ρ.node) (value.map ρ.node)
  | module n items => module (ρ.name n) (items.map ρ.node)
  | use path => use (path.relabel ρ)

def Decl.relabel : Decl → Decl
  | selfParam byRef mutable => selfParam byRef mutable
  | param pat ty => param (pat.map ρ.node) (ty.map ρ.node)
  | field n ty => field (ρ.name n) (ty.map ρ.node)
  | tupleField ty => tupleField (ρ.node ty)
  | variant n fields => variant (ρ.name n) (fields.map ρ.node)
  | method n sig => method (ρ.name n) (sig.relabel ρ)
  | typeParam n => typeParam (ρ.name n)

def Stmt.relabel : Stmt → Stmt
  | bind pat ty init => bind (pat.map ρ.node) (ty.map ρ.node) (init.map ρ.node)
  | semi expr => semi (ρ.node expr)

def FieldInit.relabel (f : FieldInit) : FieldInit := ⟨ρ.name f.name, f.value.map ρ.node⟩

def FieldName.relabel : FieldName → FieldName
  | named n => named (ρ.name n)
  | positional index => positional index

def Expr.relabel : Expr → Expr
  | lit value => lit (value.relabel ρ)
  | unit => unit
  | path p => path (p.relabel ρ)
  | unary op operand => unary op (operand.map ρ.node)
  | binary op lhs rhs => binary op (ρ.node lhs) (ρ.node rhs)
  | paren inner => paren (ρ.node inner)
  | tuple elems => tuple (elems.map ρ.node)
  | array elems => array (elems.map ρ.node)
  | struct p fields base =>
    struct (p.relabel ρ) (fields.map (FieldInit.relabel ρ)) (base.map ρ.node)
  | call callee args => call (ρ.node callee) (args.map ρ.node)
  | methodCall receiver method args =>
    methodCall (ρ.node receiver) (ρ.name method) (args.map ρ.node)
  | field receiver f => field (ρ.node receiver) (f.relabel ρ)
  | index base place => index (ρ.node base) (ρ.node place)
  | cast expr ty => cast (ρ.node expr) (ρ.node ty)
  | block inner => block (inner.map ρ.node)
  | branch cond thenBlock elseBranch =>
    branch (cond.map ρ.node) (thenBlock.map ρ.node) (elseBranch.map ρ.node)
  | whileLoop cond body => whileLoop (cond.map ρ.node) (body.map ρ.node)
  | loop body => loop (body.map ρ.node)
  | forLoop pat iter body => forLoop (pat.map ρ.node) (iter.map ρ.node) (body.map ρ.node)
  | select scrutinee arms => select (scrutinee.map ρ.node) (arms.map ρ.node)
  | closure params ret body => closure (params.map ρ.node) (ret.map ρ.node) (body.map ρ.node)
  | returnWith value => returnWith (value.map ρ.node)
  | breakWith value => breakWith (value.map ρ.node)
  | continueLoop => continueLoop

def FieldPat.relabel (f : FieldPat) : FieldPat := ⟨ρ.name f.name, ρ.node f.pat⟩

def Pat.relabel : Pat → Pat
  | binding n byRef mutable sub => binding (ρ.name n) byRef mutable (sub.map ρ.node)
  | wild => wild
  | tuple elems => tuple (elems.map ρ.node)
  | ref inner mutable => ref (ρ.node inner) mutable
  | struct p fields => struct (p.relabel ρ) (fields.map (FieldPat.relabel ρ))
  | tupleStruct p elems => tupleStruct (p.relabel ρ) (elems.map ρ.node)
  | path p => path (p.relabel ρ)
  | lit value => lit (value.relabel ρ)

def TypeExpr.relabel : TypeExpr → TypeExpr
  | path p => path (p.relabel ρ)
  | tuple elems => tuple (elems.map ρ.node)
  | ref inner mutable => ref (inner.map ρ.node) mutable
  | array elem len => array (elem.map ρ.node) (len.map ρ.node)
  | slice elem => slice (elem.map ρ.node)
  | ptr inner mutable => ptr (inner.map ρ.node) mutable
  | fnPtr params ret => fnPtr (params.map ρ.node) (ret.map ρ.node)
  | never => never
  | infer => infer

def NodeKind.relabel : NodeKind → NodeKind
  | sourceFile items => sourceFile (items.map ρ.node)
  | item i => item (i.relabel ρ)
  | decl d => decl (d.relabel ρ)
  | stmt s => stmt (s.relabel ρ)
  | expr e => expr (e.relabel ρ)
  | pat p => pat (p.relabel ρ)
  | typeExpr e => typeExpr (e.relabel ρ)
  | block stmts tail => block (stmts.map ρ.node) (tail.map ρ.node)
  | enumBody variants => enumBody (variants.map ρ.node)
  | matchArm p guard body => matchArm (p.map ρ.node) (guard.map ρ.node) (body.map ρ.node)
  | scopedLet p scrutinee => scopedLet (p.map ρ.node) (scrutinee.map ρ.node)

end

/-! ## The names that a node holds -/

def Item.names : Item → List Name
  | use p => p.names
  | i => i.name?.toList

def FieldName.names : FieldName → List Name
  | named n => [n]
  | positional _ => []

def Expr.names : Expr → List Name
  | lit value => [value.text]
  | path p => p.names
  | struct p fields _ => p.names ++ fields.map (·.name)
  | methodCall _ method _ => [method]
  | field _ f => f.names
  | _ => []

def Pat.names : Pat → List Name
  | binding n _ _ _ => [n]
  | struct p fields => p.names ++ fields.map (·.name)
  | tupleStruct p _ | path p => p.names
  | lit value => [value.text]
  | wild | tuple _ | ref _ _ => []

def TypeExpr.names : TypeExpr → List Name
  | path p => p.names
  | _ => []

def NodeKind.names : NodeKind → List Name
  | item i => i.names
  | decl d => d.name?.toList
  | expr e => e.names
  | pat p => p.names
  | typeExpr e => e.names
  | _ => []

/-! ## What stays, and what is mapped -/

variable {ρ : Relabelling} {f : NodeId → NodeId}

theorem Signature.children_relabel (s : Signature) :
    (s.relabel ρ).children = s.children.map ρ.node := by
  simp [relabel, children, Option.toList_map]

theorem Item.children_relabel (i : Item) : (i.relabel ρ).children = i.children.map ρ.node := by
  cases i <;> simp [relabel, children, Signature.children_relabel, Option.toList_map]

theorem Decl.children_relabel (d : Decl) : (d.relabel ρ).children = d.children.map ρ.node := by
  cases d <;> simp [relabel, children, Signature.children_relabel, Option.toList_map]

theorem Expr.children_relabel (e : Expr) : (e.relabel ρ).children = e.children.map ρ.node := by
  cases e <;> simp [relabel, children, FieldInit.relabel, List.filterMap_map, List.map_filterMap,
    Option.toList_map, Function.comp_def]

theorem Pat.children_relabel (p : Pat) : (p.relabel ρ).children = p.children.map ρ.node := by
  cases p <;> simp [relabel, children, FieldPat.relabel, Option.toList_map]

theorem TypeExpr.children_relabel (e : TypeExpr) :
    (e.relabel ρ).children = e.children.map ρ.node := by
  cases e <;> simp [relabel, children, Option.toList_map]

theorem NodeKind.children_relabel (k : NodeKind) :
    (k.relabel ρ).children = k.children.map ρ.node := by
  cases k with
  | item i => exact i.children_relabel
  | decl d => exact d.children_relabel
  | stmt s => cases s <;> simp [relabel, children, Stmt.relabel, Stmt.children, Option.toList_map]
  | expr e => exact e.children_relabel
  | pat p => exact p.children_relabel
  | typeExpr e => exact e.children_relabel
  | sourceFile _ | enumBody _ => rfl
  | block _ _ | matchArm _ _ _ | scopedLet _ _ => simp [relabel, children, Option.toList_map]

namespace NodeKind

variable (k : NodeKind)

theorem isItem_relabel : (k.relabel ρ).isItem = k.isItem := by cases k <;> rfl

theorem isPat_relabel : (k.relabel ρ).isPat = k.isPat := by cases k <;> rfl

theorem isEnumBody_relabel : (k.relabel ρ).isEnumBody = k.isEnumBody := by cases k <;> rfl

theorem category_relabel : (k.relabel ρ).category = k.category := by cases k <;> rfl

theorem isVariant_relabel : (k.relabel ρ).isVariant = k.isVariant := by
  cases k with
  | decl d => cases d <;> rfl
  | _ => rfl

theorem isEnum_relabel : (k.relabel ρ).isEnum = k.isEnum := by
  cases k with
  | item i => cases i <;> rfl
  | _ => rfl

theorem isImpl_relabel : (k.relabel ρ).isImpl = k.isImpl := by
  cases k with
  | item i => cases i <;> rfl
  | _ => rfl

theorem isImplOrTrait_relabel : (k.relabel ρ).isImplOrTrait = k.isImplOrTrait := by
  cases k with
  | item i => cases i <;> rfl
  | _ => rfl

theorem signature?_relabel :
    (k.relabel ρ).signature? = k.signature?.map (Signature.relabel ρ) := by
  cases k with
  | item i => cases i <;> rfl
  | decl d => cases d <;> rfl
  | _ => rfl

theorem hasSignature_relabel : (k.relabel ρ).hasSignature = k.hasSignature := by
  rw [hasSignature, signature?_relabel, Option.isSome_map, hasSignature]

theorem name?_relabel : (k.relabel ρ).name? = k.name?.map ρ.name := by
  cases k with
  | item i => cases i <;> rfl
  | decl d => cases d <;> rfl
  | pat p => cases p <;> rfl
  | _ => rfl

variable {k}

theorem mem_names_of_name? {n : Name} (h : k.name? = some n) : n ∈ k.names := by
  cases k with
  | item i => cases i <;> simp_all [name?, names, Item.name?, Item.names]
  | decl d => simpa [name?, names] using h
  | pat p => cases p <;> simp_all [name?, names, Pat.names]
  | _ => cases h

end NodeKind

/-! ## Two relabellings in a row -/

/-- One map after the other. -/
def Relabelling.comp (σ ρ : Relabelling) : Relabelling := ⟨σ.node ∘ ρ.node, σ.name ∘ ρ.name⟩

variable {σ : Relabelling}

theorem SymbolPath.relabel_relabel (p : SymbolPath) :
    (p.relabel ρ).relabel σ = p.relabel (σ.comp ρ) := by
  obtain ⟨head, segments⟩ := p
  cases head <;> simp [relabel, PathHead.relabel, Relabelling.comp]

theorem Signature.relabel_relabel (s : Signature) :
    (s.relabel ρ).relabel σ = s.relabel (σ.comp ρ) := by
  simp [relabel, Relabelling.comp]

theorem Item.relabel_relabel (i : Item) : (i.relabel ρ).relabel σ = i.relabel (σ.comp ρ) := by
  cases i <;> simp [relabel, Relabelling.comp, Signature.relabel_relabel,
    SymbolPath.relabel_relabel]

theorem Decl.relabel_relabel (d : Decl) : (d.relabel ρ).relabel σ = d.relabel (σ.comp ρ) := by
  cases d <;> simp [relabel, Relabelling.comp, Signature.relabel_relabel]

theorem Stmt.relabel_relabel (s : Stmt) : (s.relabel ρ).relabel σ = s.relabel (σ.comp ρ) := by
  cases s <;> simp [relabel, Relabelling.comp]

theorem FieldName.relabel_relabel (n : FieldName) :
    (n.relabel ρ).relabel σ = n.relabel (σ.comp ρ) := by
  cases n <;> rfl

theorem Expr.relabel_relabel (e : Expr) : (e.relabel ρ).relabel σ = e.relabel (σ.comp ρ) := by
  cases e <;> simp [relabel, Relabelling.comp, FieldInit.relabel, Literal.relabel,
    FieldName.relabel_relabel, SymbolPath.relabel_relabel]

theorem Pat.relabel_relabel (p : Pat) : (p.relabel ρ).relabel σ = p.relabel (σ.comp ρ) := by
  cases p <;> simp [relabel, Relabelling.comp, FieldPat.relabel, Literal.relabel,
    SymbolPath.relabel_relabel]

theorem TypeExpr.relabel_relabel (e : TypeExpr) :
    (e.relabel ρ).relabel σ = e.relabel (σ.comp ρ) := by
  cases e <;> simp [relabel, Relabelling.comp, SymbolPath.relabel_relabel]

theorem NodeKind.relabel_relabel (k : NodeKind) :
    (k.relabel ρ).relabel σ = k.relabel (σ.comp ρ) := by
  cases k <;> simp [relabel, Relabelling.comp, Item.relabel_relabel, Decl.relabel_relabel,
    Stmt.relabel_relabel, Expr.relabel_relabel, Pat.relabel_relabel, TypeExpr.relabel_relabel]

/-! ## Maps that agree on the children of a node -/

theorem Relabelling.map_eq_map_iff {α β : Type} {f g : α → β} {o : Option α} :
    o.map f = o.map g ↔ ∀ x, o = some x → f x = g x := by
  cases o <;> simp

theorem SymbolPath.relabel_mk (p : SymbolPath) : p.relabel ⟨f, ρ.name⟩ = p.relabel ρ := by
  obtain ⟨head, segments⟩ := p
  cases head <;> rfl

theorem FieldName.relabel_mk (n : FieldName) : n.relabel ⟨f, ρ.name⟩ = n.relabel ρ := by
  cases n <;> rfl

theorem Signature.relabel_congr {s : Signature} (h : ∀ x ∈ s.children, f x = ρ.node x) :
    s.relabel ⟨f, ρ.name⟩ = s.relabel ρ := by
  simp_all [relabel, children, or_imp, forall_and, Relabelling.map_eq_map_iff]

theorem Item.relabel_congr {i : Item} (h : ∀ x ∈ i.children, f x = ρ.node x) :
    i.relabel ⟨f, ρ.name⟩ = i.relabel ρ := by
  cases i <;> simp_all [relabel, children, or_imp, forall_and, Signature.relabel_congr,
    SymbolPath.relabel_mk, Relabelling.map_eq_map_iff]

theorem Decl.relabel_congr {d : Decl} (h : ∀ x ∈ d.children, f x = ρ.node x) :
    d.relabel ⟨f, ρ.name⟩ = d.relabel ρ := by
  cases d <;> simp_all [relabel, children, or_imp, forall_and, Signature.relabel_congr,
    Relabelling.map_eq_map_iff]

theorem Stmt.relabel_congr {s : Stmt} (h : ∀ x ∈ s.children, f x = ρ.node x) :
    s.relabel ⟨f, ρ.name⟩ = s.relabel ρ := by
  cases s <;> simp_all [relabel, children, or_imp, forall_and, Relabelling.map_eq_map_iff]

theorem Expr.relabel_congr {e : Expr} (h : ∀ x ∈ e.children, f x = ρ.node x) :
    e.relabel ⟨f, ρ.name⟩ = e.relabel ρ := by
  cases e with
  | struct _ fields _ =>
    simp only [children, List.mem_append, or_imp, forall_and, List.mem_filterMap] at h
    have hfields (g : FieldInit) (hg : g ∈ fields) :
        FieldInit.relabel ⟨f, ρ.name⟩ g = FieldInit.relabel ρ g := by
      have hvalue : g.value.map f = g.value.map ρ.node :=
        Relabelling.map_eq_map_iff.mpr fun x hx => h.1 x ⟨g, hg, hx⟩
      rw [FieldInit.relabel, FieldInit.relabel, hvalue]
    simp_all [relabel, SymbolPath.relabel_mk, Relabelling.map_eq_map_iff]
  | _ => simp_all [relabel, children, or_imp, forall_and, SymbolPath.relabel_mk,
      FieldName.relabel_mk, Literal.relabel, Relabelling.map_eq_map_iff]

theorem Pat.relabel_congr {p : Pat} (h : ∀ x ∈ p.children, f x = ρ.node x) :
    p.relabel ⟨f, ρ.name⟩ = p.relabel ρ := by
  cases p <;> simp_all [relabel, children, SymbolPath.relabel_mk, Literal.relabel,
    FieldPat.relabel, Relabelling.map_eq_map_iff]

theorem TypeExpr.relabel_congr {e : TypeExpr} (h : ∀ x ∈ e.children, f x = ρ.node x) :
    e.relabel ⟨f, ρ.name⟩ = e.relabel ρ := by
  cases e <;> simp_all [relabel, children, or_imp, forall_and, SymbolPath.relabel_mk,
    Relabelling.map_eq_map_iff]

theorem NodeKind.relabel_congr {k : NodeKind} (h : ∀ x ∈ k.children, f x = ρ.node x) :
    k.relabel ⟨f, ρ.name⟩ = k.relabel ρ := by
  cases k with
  | item i => exact congrArg item (Item.relabel_congr h)
  | decl d => exact congrArg decl (Decl.relabel_congr h)
  | stmt s => exact congrArg stmt (Stmt.relabel_congr h)
  | expr e => exact congrArg expr (Expr.relabel_congr h)
  | pat p => exact congrArg pat (Pat.relabel_congr h)
  | typeExpr e => exact congrArg typeExpr (TypeExpr.relabel_congr h)
  | sourceFile _ | enumBody _ | block _ _ | matchArm _ _ _ | scopedLet _ _ =>
    simp_all [relabel, children, or_imp, forall_and, Relabelling.map_eq_map_iff]

end TypeDerivation
