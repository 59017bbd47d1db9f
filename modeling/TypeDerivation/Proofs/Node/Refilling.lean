import Mathlib.Data.List.Basic
import TypeDerivation.Proofs.Relabelling.Syntax

/-!
A node kind is its shape and its children: the numbers it holds are its children, and the shape says
which of them stands where. A list of numbers put into the places of a shape, in the order of the
source, gives the one kind of this shape that has the list as its children.
-/

namespace TypeDerivation

/-- Numbers that are put into places, taken from the front. -/
abbrev Supply := StateT (List NodeId) Option

namespace Supply

def next : Supply NodeId
  | [] => none
  | x :: rest => some (x, rest)

def nextIf (place : Option NodeId) : Supply (Option NodeId) := place.mapM fun _ => next

def nextAll (places : List NodeId) : Supply (List NodeId) := places.mapM fun _ => next

end Supply

open Supply

/-! ## Places filled in the order of the source -/

def Signature.refill (s : Signature) : Supply Signature :=
  return {
    generics := ← nextAll s.generics
    selfParam := ← nextIf s.selfParam
    params := ← nextAll s.params
    ret := ← nextIf s.ret
    body := ← nextIf s.body }

def Item.refill : Item → Supply Item
  | struct n generics fields => return struct n (← nextAll generics) (← nextAll fields)
  | enum n generics body => return enum n (← nextAll generics) (← nextIf body)
  | typeAlias n generics target => return typeAlias n (← nextAll generics) (← nextIf target)
  | fn n sig => return fn n (← sig.refill)
  | trait n generics members => return trait n (← nextAll generics) (← nextAll members)
  | impl generics traitRef target members =>
    return impl (← nextAll generics) (← nextIf traitRef) (← nextIf target) (← nextAll members)
  | const n ty value => return const n (← nextIf ty) (← nextIf value)
  | static n mutable ty value => return static n mutable (← nextIf ty) (← nextIf value)
  | module n items => return module n (← nextAll items)
  | use path => return use path

def Decl.refill : Decl → Supply Decl
  | selfParam byRef mutable => return selfParam byRef mutable
  | param pat ty => return param (← nextIf pat) (← nextIf ty)
  | field n ty => return field n (← nextIf ty)
  | tupleField _ => return tupleField (← next)
  | variant n fields => return variant n (← nextAll fields)
  | method n sig => return method n (← sig.refill)
  | typeParam n => return typeParam n

def Stmt.refill : Stmt → Supply Stmt
  | bind pat ty init => return bind (← nextIf pat) (← nextIf ty) (← nextIf init)
  | semi _ => return semi (← next)

def FieldInit.refill (f : FieldInit) : Supply FieldInit := return ⟨f.name, ← nextIf f.value⟩

def Expr.refill : Expr → Supply Expr
  | lit value => return lit value
  | unit => return unit
  | path p => return path p
  | unary op operand => return unary op (← nextIf operand)
  | binary op _ _ => return binary op (← next) (← next)
  | paren _ => return paren (← next)
  | tuple elems => return tuple (← nextAll elems)
  | array elems => return array (← nextAll elems)
  | struct p fields base => return struct p (← fields.mapM FieldInit.refill) (← nextIf base)
  | call _ args => return call (← next) (← nextAll args)
  | methodCall _ method args => return methodCall (← next) method (← nextAll args)
  | field _ f => return field (← next) f
  | index _ _ => return index (← next) (← next)
  | cast _ _ => return cast (← next) (← next)
  | block inner => return block (← nextIf inner)
  | branch cond thenBlock elseBranch =>
    return branch (← nextIf cond) (← nextIf thenBlock) (← nextIf elseBranch)
  | whileLoop cond body => return whileLoop (← nextIf cond) (← nextIf body)
  | loop body => return loop (← nextIf body)
  | forLoop pat iter body => return forLoop (← nextIf pat) (← nextIf iter) (← nextIf body)
  | select scrutinee arms => return select (← nextIf scrutinee) (← nextAll arms)
  | closure params ret body => return closure (← nextAll params) (← nextIf ret) (← nextIf body)
  | returnWith value => return returnWith (← nextIf value)
  | breakWith value => return breakWith (← nextIf value)
  | continueLoop => return continueLoop

def FieldPat.refill (f : FieldPat) : Supply FieldPat := return ⟨f.name, ← next⟩

def Pat.refill : Pat → Supply Pat
  | binding n byRef mutable sub => return binding n byRef mutable (← nextIf sub)
  | wild => return wild
  | tuple elems => return tuple (← nextAll elems)
  | ref _ mutable => return ref (← next) mutable
  | struct p fields => return struct p (← fields.mapM FieldPat.refill)
  | tupleStruct p elems => return tupleStruct p (← nextAll elems)
  | path p => return path p
  | lit value => return lit value

def TypeExpr.refill : TypeExpr → Supply TypeExpr
  | path p => return path p
  | tuple elems => return tuple (← nextAll elems)
  | ref inner mutable => return ref (← nextIf inner) mutable
  | array elem len => return array (← nextIf elem) (← nextIf len)
  | slice elem => return slice (← nextIf elem)
  | ptr inner mutable => return ptr (← nextIf inner) mutable
  | fnPtr params ret => return fnPtr (← nextAll params) (← nextIf ret)
  | never => return never
  | infer => return infer

def NodeKind.refill : NodeKind → Supply NodeKind
  | sourceFile items => return sourceFile (← nextAll items)
  | item i => return item (← i.refill)
  | decl d => return decl (← d.refill)
  | stmt s => return stmt (← s.refill)
  | expr e => return expr (← e.refill)
  | pat p => return pat (← p.refill)
  | typeExpr e => return typeExpr (← e.refill)
  | block stmts tail => return block (← nextAll stmts) (← nextIf tail)
  | enumBody variants => return enumBody (← nextAll variants)
  | matchArm p guard body => return matchArm (← nextIf p) (← nextIf guard) (← nextIf body)
  | scopedLet p scrutinee => return scopedLet (← nextIf p) (← nextIf scrutinee)

/-- All numbers become the same one. -/
def Relabelling.blank : Relabelling := ⟨fun _ => default, id⟩

open Relabelling (blank)

namespace NodeKind

/-- The kind without its numbers. -/
def shape (k : NodeKind) : NodeKind := k.relabel blank

def renumber (f : NodeId → NodeId) (k : NodeKind) : NodeKind := k.relabel ⟨f, id⟩

/-- The kind with these numbers in its places, if there are as many numbers as places. -/
def withChildren? (k : NodeKind) (ids : List NodeId) : Option NodeKind :=
  match k.refill.run ids with
  | some (k', []) => some k'
  | _ => none

/-- It makes a difference to the kind by which number this one is replaced. -/
def Holds (k : NodeKind) (x : NodeId) : Prop :=
  ∃ f g : NodeId → NodeId, (∀ y, y ≠ x → f y = g y) ∧ k.renumber f ≠ k.renumber g

end NodeKind

/-! ## What is taken from a supply and what is left of it -/

@[simp, grind =]
theorem Relabelling.blank_name (n : Name) : blank.name n = n := rfl

@[simp, grind =]
theorem Relabelling.blank_node (x : NodeId) : blank.node x = default := rfl

variable {ids rest : List NodeId}

namespace Supply

theorem run_pure_iff {α : Type} {a b : α} :
    (pure a : Supply α).run ids = some (b, rest) ↔ a = b ∧ ids = rest := by
  simp

theorem run_bind_iff {α β : Type} {r : Supply α} {g : α → Supply β} {b : β} :
    (r >>= g).run ids = some (b, rest) ↔
      ∃ a left, r.run ids = some (a, left) ∧ (g a).run left = some (b, rest) := by
  simp [StateT.run_bind, Option.bind_eq_some_iff]

theorem run_next_iff {x : NodeId} : next.run ids = some (x, rest) ↔ ids = x :: rest := by
  cases ids <;> simp [next, StateT.run]

theorem run_nextIf_iff {o o' : Option NodeId} :
    (nextIf (o.map blank.node)).run ids = some (o', rest) ↔
      o'.map blank.node = o.map blank.node ∧ ids = o'.toList ++ rest := by
  cases o with
  | none => cases o' <;> simp [nextIf, eq_comm]
  | some x => cases o' <;> simp [nextIf, Option.map_eq_some_iff, run_next_iff, blank]

/-- Elements that each take their own numbers take them one element after the other. -/
theorem run_mapM_iff {α β : Type} {g : α → Supply α} {h : α → α} {s : α → β}
    {c : α → List NodeId}
    (hg : ∀ {a b ids rest}, (g (h a)).run ids = some (b, rest) ↔ s b = s a ∧ ids = c b ++ rest)
    {xs ys : List α} :
    ((xs.map h).mapM g).run ids = some (ys, rest) ↔
      ys.map s = xs.map s ∧ ids = ys.flatMap c ++ rest := by
  induction xs generalizing ids ys rest with
  | nil => cases ys <;> simp [eq_comm]
  | cons x xs ih =>
    simp only [List.map_cons, List.mapM_cons, run_bind_iff, run_pure_iff, hg, ih]
    constructor
    · rintro ⟨y, left, ⟨hy, rfl⟩, ys, left', ⟨hys, rfl⟩, rfl, rfl⟩
      rw [List.map_cons, hy, hys, List.flatMap_cons, List.append_assoc]
      exact ⟨rfl, rfl⟩
    · rintro ⟨hmap, rfl⟩
      cases ys with
      | nil => cases hmap
      | cons y ys =>
        obtain ⟨hy, hys⟩ := List.cons.inj hmap
        rw [List.flatMap_cons, List.append_assoc]
        exact ⟨y, _, ⟨hy, rfl⟩, ys, rest, ⟨hys, rfl⟩, rfl, rfl⟩

theorem run_nextAll_iff {xs ys : List NodeId} :
    (nextAll (xs.map blank.node)).run ids = some (ys, rest) ↔
      ys.map blank.node = xs.map blank.node ∧ ids = ys ++ rest := by
  have hone {a b : NodeId} {ids rest : List NodeId} :
      next.run ids = some (b, rest) ↔ blank.node b = blank.node a ∧ ids = [b] ++ rest := by
    simp [run_next_iff, blank]
  rw [nextAll, run_mapM_iff (g := fun _ => next) hone, List.flatMap_singleton']

@[simp]
theorem run_next (x : NodeId) : next.run (x :: rest) = some (x, rest) := rfl

@[simp]
theorem run_nextIf (o : Option NodeId) :
    (nextIf (o.map blank.node)).run (o.toList ++ rest) = some (o, rest) :=
  run_nextIf_iff.mpr ⟨rfl, rfl⟩

@[simp]
theorem run_nextAll (xs : List NodeId) :
    (nextAll (xs.map blank.node)).run (xs ++ rest) = some (xs, rest) :=
  run_nextAll_iff.mpr ⟨rfl, rfl⟩

end Supply

theorem SymbolPath.relabel_blank (p : SymbolPath) : p.relabel blank = p := by
  obtain ⟨head, segments⟩ := p
  cases head <;> simp [relabel, PathHead.relabel, blank]

theorem FieldName.relabel_blank (n : FieldName) : n.relabel blank = n := by
  cases n <;> rfl


/-!
## Children put into the places of a shape

The children of a node fill its shape (`run_refill`), and whatever fills a shape are the children of
the node that comes out (`of_refill`).
-/

theorem Signature.run_refill (s : Signature) :
    (s.relabel blank).refill.run (s.children ++ rest) = some (s, rest) := by
  simp [refill, relabel, children]

theorem Signature.of_refill {s s' : Signature}
    (h : (s.relabel blank).refill.run ids = some (s', rest)) :
    s'.relabel blank = s.relabel blank ∧ ids = s'.children ++ rest := by
  simp only [refill, relabel, run_bind_iff, run_pure_iff, run_nextAll_iff, run_nextIf_iff] at h
  grind [relabel, children]

theorem Item.run_refill (i : Item) :
    (i.relabel blank).refill.run (i.children ++ rest) = some (i, rest) := by
  cases i <;> simp [refill, relabel, children, Signature.run_refill, SymbolPath.relabel_blank]

theorem Item.of_refill {i i' : Item} (h : (i.relabel blank).refill.run ids = some (i', rest)) :
    i'.relabel blank = i.relabel blank ∧ ids = i'.children ++ rest := by
  cases i <;> simp only [refill, relabel, run_bind_iff, run_pure_iff, run_nextAll_iff,
    run_nextIf_iff] at h <;>
  grind [relabel, children, Signature.of_refill, SymbolPath.relabel_blank]

theorem Decl.run_refill (d : Decl) :
    (d.relabel blank).refill.run (d.children ++ rest) = some (d, rest) := by
  cases d <;> simp [refill, relabel, children, Signature.run_refill]

theorem Decl.of_refill {d d' : Decl} (h : (d.relabel blank).refill.run ids = some (d', rest)) :
    d'.relabel blank = d.relabel blank ∧ ids = d'.children ++ rest := by
  cases d <;> simp only [refill, relabel, run_bind_iff, run_pure_iff, run_nextAll_iff,
    run_nextIf_iff, run_next_iff] at h <;>
  grind [relabel, children, Signature.of_refill]

theorem Stmt.run_refill (s : Stmt) :
    (s.relabel blank).refill.run (s.children ++ rest) = some (s, rest) := by
  cases s <;> simp [refill, relabel, children]

theorem Stmt.of_refill {s s' : Stmt} (h : (s.relabel blank).refill.run ids = some (s', rest)) :
    s'.relabel blank = s.relabel blank ∧ ids = s'.children ++ rest := by
  cases s <;> simp only [refill, relabel, run_bind_iff, run_pure_iff, run_nextIf_iff,
    run_next_iff] at h <;>
  grind [relabel, children]

theorem FieldInit.run_mapM_refill_iff {fs gs : List FieldInit} :
    ((fs.map (FieldInit.relabel blank)).mapM FieldInit.refill).run ids = some (gs, rest) ↔
      gs.map (FieldInit.relabel blank) = fs.map (FieldInit.relabel blank) ∧
      ids = gs.filterMap (·.value) ++ rest := by
  have hone {a b : FieldInit} {ids rest : List NodeId} :
      (a.relabel blank).refill.run ids = some (b, rest) ↔
        b.relabel blank = a.relabel blank ∧ ids = b.value.toList ++ rest := by
    cases b
    simp only [refill, relabel, run_bind_iff, run_pure_iff, run_nextIf_iff]
    grind
  rw [run_mapM_iff hone, List.filterMap_eq_flatMap_toList]

theorem Expr.run_refill (e : Expr) :
    (e.relabel blank).refill.run (e.children ++ rest) = some (e, rest) := by
  have hfields (fs : List FieldInit) (rest : List NodeId) :
      ((fs.map (FieldInit.relabel blank)).mapM FieldInit.refill).run
        (fs.filterMap (·.value) ++ rest) = some (fs, rest) :=
    FieldInit.run_mapM_refill_iff.mpr ⟨rfl, rfl⟩
  cases e <;> simp [-List.mapM_map, refill, relabel, children, hfields,
    SymbolPath.relabel_blank, FieldName.relabel_blank, Literal.relabel]

theorem Expr.of_refill {e e' : Expr} (h : (e.relabel blank).refill.run ids = some (e', rest)) :
    e'.relabel blank = e.relabel blank ∧ ids = e'.children ++ rest := by
  cases e <;> simp only [refill, relabel, run_bind_iff, run_pure_iff, run_nextAll_iff,
    run_nextIf_iff, run_next_iff, FieldInit.run_mapM_refill_iff] at h <;>
  grind [relabel, children, SymbolPath.relabel_blank, FieldName.relabel_blank, Literal.relabel]

theorem FieldPat.run_mapM_refill_iff {fs gs : List FieldPat} :
    ((fs.map (FieldPat.relabel blank)).mapM FieldPat.refill).run ids = some (gs, rest) ↔
      gs.map (FieldPat.relabel blank) = fs.map (FieldPat.relabel blank) ∧
      ids = gs.map (·.pat) ++ rest := by
  have hone {a b : FieldPat} {ids rest : List NodeId} :
      (a.relabel blank).refill.run ids = some (b, rest) ↔
        b.relabel blank = a.relabel blank ∧ ids = [b.pat] ++ rest := by
    cases b
    simp only [refill, relabel, run_bind_iff, run_pure_iff, run_next_iff]
    grind
  have hpats : gs.map (·.pat) = gs.flatMap fun g => [g.pat] :=
    (List.flatMap_pure_eq_map _ gs).symm
  rw [run_mapM_iff hone, hpats]

theorem Pat.run_refill (p : Pat) :
    (p.relabel blank).refill.run (p.children ++ rest) = some (p, rest) := by
  have hfields (fs : List FieldPat) (rest : List NodeId) :
      ((fs.map (FieldPat.relabel blank)).mapM FieldPat.refill).run
        (fs.map (·.pat) ++ rest) = some (fs, rest) :=
    FieldPat.run_mapM_refill_iff.mpr ⟨rfl, rfl⟩
  cases p <;> simp [-List.mapM_map, refill, relabel, children, hfields,
    SymbolPath.relabel_blank, Literal.relabel]

theorem Pat.of_refill {p p' : Pat} (h : (p.relabel blank).refill.run ids = some (p', rest)) :
    p'.relabel blank = p.relabel blank ∧ ids = p'.children ++ rest := by
  cases p <;> simp only [refill, relabel, run_bind_iff, run_pure_iff, run_nextAll_iff,
    run_nextIf_iff, run_next_iff, FieldPat.run_mapM_refill_iff] at h <;>
  grind [relabel, children, SymbolPath.relabel_blank, Literal.relabel]

theorem TypeExpr.run_refill (e : TypeExpr) :
    (e.relabel blank).refill.run (e.children ++ rest) = some (e, rest) := by
  cases e <;> simp [refill, relabel, children, SymbolPath.relabel_blank]

theorem TypeExpr.of_refill {e e' : TypeExpr}
    (h : (e.relabel blank).refill.run ids = some (e', rest)) :
    e'.relabel blank = e.relabel blank ∧ ids = e'.children ++ rest := by
  cases e <;> simp only [refill, relabel, run_bind_iff, run_pure_iff, run_nextAll_iff,
    run_nextIf_iff] at h <;>
  grind [relabel, children, SymbolPath.relabel_blank]

namespace NodeKind

theorem run_refill (k : NodeKind) :
    (k.relabel blank).refill.run (k.children ++ rest) = some (k, rest) := by
  cases k <;> simp [refill, relabel, children, Item.run_refill, Decl.run_refill,
    Stmt.run_refill, Expr.run_refill, Pat.run_refill, TypeExpr.run_refill]

theorem of_refill {k k' : NodeKind} (h : (k.relabel blank).refill.run ids = some (k', rest)) :
    k'.relabel blank = k.relabel blank ∧ ids = k'.children ++ rest := by
  cases k <;> simp only [refill, relabel, run_bind_iff, run_pure_iff, run_nextAll_iff,
    run_nextIf_iff] at h <;>
  grind [relabel, children, Item.of_refill, Decl.of_refill, Stmt.of_refill, Expr.of_refill,
    Pat.of_refill, TypeExpr.of_refill]

/-! ## Nothing but the shape and the children -/

theorem withChildren?_shape_iff {k k' : NodeKind} :
    k.shape.withChildren? ids = some k' ↔ k'.shape = k.shape ∧ k'.children = ids := by
  constructor
  · intro h
    unfold withChildren? at h
    split at h
    · rename_i hrun
      cases h
      obtain ⟨hshape, hids⟩ := of_refill hrun
      rw [List.append_nil] at hids
      exact ⟨hshape, hids.symm⟩
    · cases h
  · rintro ⟨hshape, rfl⟩
    have hrun : k'.shape.refill.run (k'.children ++ []) = some (k', []) := k'.run_refill
    rw [List.append_nil, hshape] at hrun
    rw [withChildren?, hrun]

theorem eq_of_shape {k k' : NodeKind} (hshape : k.shape = k'.shape)
    (hchildren : k.children = k'.children) : k = k' := by
  have hk : k'.shape.withChildren? k'.children = some k :=
    withChildren?_shape_iff.mpr ⟨hshape, hchildren⟩
  rw [withChildren?_shape_iff.mpr ⟨rfl, rfl⟩] at hk
  exact (Option.some.inj hk).symm

variable (f : NodeId → NodeId) (k : NodeKind)

theorem shape_renumber : (k.renumber f).shape = k.shape := k.relabel_relabel

theorem children_renumber : (k.renumber f).children = k.children.map f := k.children_relabel

variable {k}

theorem holds_iff {x : NodeId} : k.Holds x ↔ x ∈ k.children := by
  constructor
  · rintro ⟨f, g, hfg, hne⟩
    by_contra hx
    have hagree (y : NodeId) (hy : y ∈ k.children) : f y = g y := hfg y (ne_of_mem_of_not_mem hy hx)
    exact hne (relabel_congr (ρ := ⟨g, id⟩) hagree)
  · intro hx
    -- all other numbers stay, and this one becomes another one
    refine ⟨fun y => if y = x then ⟨x.index + 1⟩ else y, id, fun y hy => if_neg hy, fun he => ?_⟩
    have hmap := congrArg children he
    rw [children_renumber, children_renumber] at hmap
    have hfixed := List.map_inj_left.mp hmap x hx
    simp [← NodeId.index_inj] at hfixed

/-- There is nothing to a kind but its shape and its children: every number that it holds is among
its children, and the shape alone says at which place. -/
theorem children_exhaustive (k : NodeKind) :
    (∀ k', k.shape = k'.shape → k.children = k'.children → k = k') ∧
    (∀ f, (k.renumber f).shape = k.shape ∧ (k.renumber f).children = k.children.map f) ∧
    (∀ x, k.Holds x ↔ x ∈ k.children) ∧
    ∀ ids k', k.shape.withChildren? ids = some k' ↔ k'.shape = k.shape ∧ k'.children = ids :=
  ⟨fun _ => eq_of_shape, fun f => ⟨k.shape_renumber f, k.children_renumber f⟩,
    fun _ => holds_iff, fun _ _ => withChildren?_shape_iff⟩

/-- A struct literal with a shorthand between its two fields, and a base. -/
def updateLiteral (first second base : Nat) : NodeKind :=
  expr (.struct ⟨.named ⟨7⟩, []⟩
    [⟨⟨8⟩, some ⟨first⟩⟩, ⟨⟨9⟩, none⟩, ⟨⟨10⟩, some ⟨second⟩⟩] (some ⟨base⟩))

theorem children_exhaustive_updateLiteral :
    ((updateLiteral 3 4 9).renumber fun x => ⟨x.index + 1⟩).shape = (updateLiteral 4 5 10).shape ∧
    ((updateLiteral 3 4 9).renumber fun x => ⟨x.index + 1⟩).children = [⟨4⟩, ⟨5⟩, ⟨10⟩] ∧
    (updateLiteral 3 4 9).renumber (fun x => ⟨x.index + 1⟩) = updateLiteral 4 5 10 ∧
    (updateLiteral 4 5 10).Holds ⟨10⟩ ∧
    (updateLiteral 3 4 9).shape.withChildren? [⟨4⟩, ⟨5⟩, ⟨10⟩] = some (updateLiteral 4 5 10) :=
  ⟨rfl, rfl, (children_exhaustive _).1 _ rfl rfl,
    ((children_exhaustive _).2.2.1 _).mpr (by decide),
    ((children_exhaustive _).2.2.2 _ _).mpr ⟨rfl, rfl⟩⟩

end NodeKind
end TypeDerivation
