import TypeDerivation.Derivation.Binding
import TypeDerivation.Proofs.Resolution
import TypeDerivation.Proofs.Tree.Kinship

/-!
The patterns around a node, read off the lists of children, and what gives the outermost of them
its type.
-/

namespace TypeDerivation.SyntaxTree

section

variable (t : SyntaxTree)

def Inside (child pat : NodeId) : Prop :=
  t.holds NodeKind.isPat pat = true ∧ child ∈ t.children pat

/-- There is nothing but patterns above the node up to `top`, which may be the node itself. -/
def Encloses (top id : NodeId) : Prop := Relation.ReflTransGen t.Inside id top

structure Outermost (top id : NodeId) : Prop where
  encloses : t.Encloses top id
  not_inside : ∀ pat, ¬t.Inside top pat

/-- From the outermost pattern around a node down to the node. -/
def wayDown (id : NodeId) : List NodeId := (t.patsAbove id).reverse ++ [id]

/-- What the type of a pattern is taken from: the statement, the parameter, the scoped let or the
match that the pattern belongs to has a type or a value for it. -/
inductive Contributes (top : NodeId) : Origin → Prop where
  | annotated {owner ty : NodeId} {init : Option NodeId} :
    t.kind? owner = some (.stmt (.bind (some top) (some ty) init)) → Contributes top (.typeExpr ty)
  | initialized {owner init : NodeId} :
    t.kind? owner = some (.stmt (.bind (some top) none (some init))) → Contributes top (.expr init)
  | param {owner : NodeId} {ty : Option NodeId} :
    t.kind? owner = some (.decl (.param (some top) ty)) →
    Contributes top (ty.elim .unstated .typeExpr)
  | scopedLet {owner scrutinee : NodeId} :
    t.kind? owner = some (.scopedLet (some top) (some scrutinee)) →
    Contributes top (.expr scrutinee)
  -- the arm belongs to the match directly above it
  | arm {arm select scrutinee : NodeId} {guard body : Option NodeId} {arms : List NodeId} :
    t.kind? arm = some (.matchArm (some top) guard body) →
    t.kind? select = some (.expr (.select (some scrutinee) arms)) → arm ∈ t.children select →
    Contributes top (.expr scrutinee)

end

variable {t : SyntaxTree} {id child pat pat' top owner : NodeId} {o : Origin}

theorem Inside.parent? (ht : t.Agreeing) (h : t.Inside child pat) : t.parent? child = some pat :=
  ht.mem_children_iff.mp h.2

theorem Inside.unique (ht : t.Agreeing) (h : t.Inside child pat) (h' : t.Inside child pat') :
    pat = pat' :=
  ht.parent_unique h.2 h'.2

theorem patsAbove_eq_cons (ht : t.Ordered) (ha : t.Agreeing) (h : t.Inside id pat) :
    t.patsAbove id = pat :: t.patsAbove pat := by
  rw [patsAbove, ht.ancestors_eq_cons (h.parent? ha), List.takeWhile_cons_of_pos h.1]
  rfl

theorem patsAbove_eq_nil (ht : t.Ordered) (ha : t.Agreeing) (h : ∀ pat, ¬t.Inside id pat) :
    t.patsAbove id = [] := by
  cases hp : t.parent? id with
  | none => rw [patsAbove, ancestors_eq_nil hp, List.takeWhile_nil]
  | some owner =>
    rw [patsAbove, ht.ancestors_eq_cons hp]
    exact List.takeWhile_cons_of_neg fun hpat => h owner ⟨hpat, ha.mem_children_iff.mpr hp⟩

theorem wayDown_of_inside (ht : t.Ordered) (ha : t.Agreeing) (h : t.Inside id pat) :
    t.wayDown id = t.wayDown pat ++ [id] := by
  rw [wayDown, patsAbove_eq_cons ht ha h, List.reverse_cons, wayDown]

theorem not_inside_of_kind? (ht : t.Agreeing) {kind : NodeKind} (hk : t.kind? owner = some kind)
    (hc : top ∈ kind.children) (hpat : kind.isPat = false) (pat : NodeId) : ¬t.Inside top pat := by
  intro hin
  obtain rfl := Option.some.inj ((ht.parent?_of_kind? hk hc).symm.trans (hin.parent? ht))
  have h := hin.1
  rw [holds, hk] at h
  cases hpat.symm.trans h

theorem Outermost.wayDown_top (ht : t.Ordered) (ha : t.Agreeing) (h : t.Outermost top id) :
    t.wayDown top = [top] := by
  rw [wayDown, patsAbove_eq_nil ht ha h.not_inside]
  rfl

theorem Outermost.eq_topPat (ht : t.Ordered) (ha : t.Agreeing) (h : t.Outermost top id) :
    t.topPat id = top := by
  obtain ⟨henc, houter⟩ := h
  induction henc using Relation.ReflTransGen.head_induction_on with
  | refl =>
    rw [topPat, patsAbove_eq_nil ht ha houter]
    rfl
  | @head id pat hin _ ih =>
    rw [topPat, patsAbove_eq_cons ht ha hin, List.getLast?_cons]
    exact ih

theorem bindOrigin?_eq_some {ty init : Option NodeId} (hk : t.kind? owner =
    some (.stmt (.bind (some top) ty init))) (h : bindOrigin? ty init = some o) :
    t.Contributes top o := by
  cases ty with
  | some ty =>
    cases h
    exact .annotated hk
  | none =>
    obtain ⟨init, rfl, rfl⟩ := Option.map_eq_some_iff.mp h
    exact .initialized hk

theorem scrutinee?_eq_some {id scrutinee : NodeId} (h : t.scrutinee? id = some scrutinee) :
    ∃ arms, t.kind? id = some (.expr (.select (some scrutinee) arms)) := by
  rw [scrutinee?] at h
  split at h
  · rename_i arms hk
    exact ⟨arms, h ▸ hk⟩
  · cases h

theorem contributes_of_origin? (ha : t.Agreeing) (h : t.origin? top = some o) :
    t.Contributes top o := by
  obtain ⟨owner, hp, h⟩ := Option.bind_eq_some_iff.mp h
  obtain ⟨kind, hk, h⟩ := Option.bind_eq_some_iff.mp h
  split at h
  · obtain ⟨rfl, ho⟩ := Option.ite_none_right_eq_some.mp h
    exact bindOrigin?_eq_some hk ho
  · obtain ⟨rfl, ho⟩ := Option.ite_none_right_eq_some.mp h
    cases ho
    exact .param hk
  · obtain ⟨rfl, ho⟩ := Option.ite_none_right_eq_some.mp h
    obtain ⟨scrutinee, rfl, rfl⟩ := Option.map_eq_some_iff.mp ho
    exact .scopedLet hk
  · obtain ⟨rfl, ho⟩ := Option.ite_none_right_eq_some.mp h
    obtain ⟨scrutinee, hs, rfl⟩ := Option.map_eq_some_iff.mp ho
    obtain ⟨select, hselect, hs⟩ := Option.bind_eq_some_iff.mp hs
    obtain ⟨arms, harms⟩ := scrutinee?_eq_some hs
    exact .arm hk harms (ha.mem_children_iff.mpr hselect)
  · cases h

theorem origin?_eq_some_iff (ha : t.Agreeing) : t.origin? top = some o ↔ t.Contributes top o := by
  refine ⟨contributes_of_origin? ha, ?_⟩
  intro h
  cases h with
  | annotated hk | initialized hk | param hk | scopedLet hk =>
    have hp : t.parent? top = _ := ha.parent?_of_kind? hk
      (by simp [NodeKind.children, Stmt.children, Decl.children])
    simp [origin?, hp, hk, bindOrigin?]
  | arm hk hselect harm =>
    have hp : t.parent? top = _ := ha.parent?_of_kind? hk (by simp [NodeKind.children])
    simp [origin?, hp, hk, ha.mem_children_iff.mp harm, scrutinee?, hselect]

theorem Contributes.unique {o' : Origin} (ha : t.Agreeing) (h : t.Contributes top o)
    (h' : t.Contributes top o') : o = o' := by
  rw [← origin?_eq_some_iff ha] at h h'
  exact Option.some.inj (h.symm.trans h')

end TypeDerivation.SyntaxTree
