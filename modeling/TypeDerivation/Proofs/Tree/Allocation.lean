import TypeDerivation.Proofs.Tree.Growth

/-!
Adding nodes is all or nothing. Either the first child that cannot be one is reported and the nodes
stay as they are, or the new nodes come after all others and their children learn of their parent.
-/

namespace TypeDerivation

namespace SyntaxTree

/-- The node is in the tree and has no parent, so it can become a child. -/
def Free (t : SyntaxTree) (child : NodeId) : Prop :=
  child.index < t.size ∧ t.parent? child = none

/-- Why a node cannot become a child. -/
inductive Obstacle (t : SyntaxTree) (child : NodeId) : BuildError → Prop where
  | unknown : t.size ≤ child.index → Obstacle t child (.unknownNode child t.size)
  | parented {parent : NodeId} :
    t.parent? child = some parent → Obstacle t child (.alreadyParented child parent)

/-- The report is about the first node of the list that cannot become a child. -/
def FirstObstacle (t : SyntaxTree) (children : List NodeId) (e : BuildError) : Prop :=
  ∃ before child after, children = before ++ child :: after ∧ (∀ c ∈ before, t.Free c) ∧
    t.Obstacle child e

/-- How a step ends that is to make some new nodes, the first of them above the children: it fails
if a child cannot be one, and then changes nothing. -/
structure Allocates (t : SyntaxTree) (children : List NodeId) (made : List Node) (answer : NodeId)
    (result : Except BuildError Product × SyntaxTree) : Prop where
  fails_iff : (∃ e, result.1 = .error e) ↔ ∃ child ∈ children, ¬t.Free child
  failure : ∀ {e}, result.1 = .error e → t.FirstObstacle children e ∧ result.2 = t
  success : ∀ {p}, result.1 = .ok p → p = .node answer ∧ result.2.names = t.names ∧
    ∀ x, result.2.get? x =
      if x.index < t.size then
        (t.get? x).map fun n => if x ∈ children then { n with parent := some ⟨t.size⟩ } else n
      else made[x.index - t.size]?

variable {t t' : SyntaxTree} {id child : NodeId} {children : List NodeId} {e : BuildError}
  {kind : NodeKind} {span : Span}

theorem childError?_eq_none_iff : t.childError? child = none ↔ t.Free child := by
  rw [childError?, Free, ← get?_isSome_iff, parent?]
  cases t.get? child <;> simp

theorem childError?_eq_some_iff : t.childError? child = some e ↔ t.Obstacle child e := by
  have hobstacle : t.Obstacle child e ↔
      (t.get? child = none ∧ e = .unknownNode child t.size) ∨
        ∃ parent, t.parent? child = some parent ∧ e = .alreadyParented child parent := by
    rw [get?_eq_none_iff]
    constructor
    · rintro (h | h)
      · exact .inl ⟨h, rfl⟩
      · exact .inr ⟨_, h, rfl⟩
    · rintro (⟨h, rfl⟩ | ⟨parent, h, rfl⟩)
      · exact .unknown h
      · exact .parented h
  rw [hobstacle, childError?, parent?]
  cases t.get? child <;> simp [Option.map_eq_some_iff, @eq_comm _ e]

theorem addAt_eq_error_iff : t.addAt kind span = .error e ↔ t.FirstObstacle kind.children e := by
  have hfirst : t.FirstObstacle kind.children e ↔ kind.children.findSome? t.childError? = some e := by
    rw [List.findSome?_eq_some_iff]
    simp only [FirstObstacle, childError?_eq_some_iff, childError?_eq_none_iff]
    constructor
    · rintro ⟨before, child, after, h, hbefore, hchild⟩
      exact ⟨before, child, after, h, hchild, hbefore⟩
    · rintro ⟨before, child, after, h, hchild, hbefore⟩
      exact ⟨before, child, after, h, hbefore, hchild⟩
  rw [hfirst, addAt]
  cases kind.children.findSome? t.childError? <;> simp

theorem exists_addAt_iff (t : SyntaxTree) (kind : NodeKind) (span : Span) :
    (∃ t', t.addAt kind span = .ok (⟨t.size⟩, t')) ↔ ∀ child ∈ kind.children, t.Free child := by
  simp only [← childError?_eq_none_iff, ← List.findSome?_eq_none_iff]
  rw [addAt]
  cases kind.children.findSome? t.childError? <;> simp

/-- What all steps that make nodes have in common: they add one node first, and what they do after
that neither fails nor changes what was there. -/
theorem allocates_of_addAt (span : Span) {made : List Node} {answer : NodeId}
    {result : Except BuildError Product × SyntaxTree}
    (hfail : ∀ {e}, t.addAt kind span = .error e → result = (.error e, t))
    (hsucceed : ∀ {t'}, t.addAt kind span = .ok (⟨t.size⟩, t') → ∃ t'',
      result = (.ok (.node answer), t'') ∧ t''.names = t.names ∧
        (∀ x, x.index < t.size → t''.get? x = t'.get? x) ∧
        ∀ i, t''.get? ⟨t.size + i⟩ = made[i]?) :
    t.Allocates kind.children made answer result := by
  cases hadd : t.addAt kind span with
  | error e =>
    obtain rfl := hfail hadd
    have hfree : ¬∀ child ∈ kind.children, t.Free child := by
      rw [← t.exists_addAt_iff kind span, hadd]
      simp
    refine ⟨iff_of_true ⟨e, rfl⟩ (by simpa using hfree), ?_, by simp⟩
    rintro _ ⟨⟩
    exact ⟨addAt_eq_error_iff.mp hadd, rfl⟩
  | ok made' =>
    obtain ⟨id, t'⟩ := made'
    obtain rfl := addAt_id hadd
    obtain ⟨t'', rfl, hnames, hold, hnew⟩ := hsucceed hadd
    have hfree := (t.exists_addAt_iff kind span).mp ⟨t', hadd⟩
    refine ⟨iff_of_false (by simp) (by simpa using hfree), by simp, ?_⟩
    rintro _ ⟨⟩
    refine ⟨rfl, hnames, ?_⟩
    intro x
    by_cases hx : x.index < t.size
    · have hne : x ≠ ⟨t.size⟩ := fun he => Nat.lt_irrefl _ (he ▸ hx)
      rw [if_pos hx, hold x hx, get?_addAt hadd, if_neg hne]
    · have hindex : x = ⟨t.size + (x.index - t.size)⟩ := NodeId.index_inj.mp (by simp; omega)
      rw [if_neg hx, ← hnew, ← hindex]

theorem get?_new_addAt (h : t.addAt kind span = .ok (id, t')) (i : Nat) :
    t'.get? ⟨t.size + i⟩ = [(⟨kind, span, none⟩ : Node)][i]? := by
  rw [get?_addAt h]
  cases i with
  | zero => simp
  | succ i =>
    have hnone : t.get? ⟨t.size + (i + 1)⟩ = none := get?_eq_none_iff.mpr (Nat.le_add_right _ _)
    simp [hnone]

theorem allocates_nodeAt (t : SyntaxTree) (kind : NodeKind) (span : Span) :
    t.Allocates kind.children [⟨kind, span, none⟩] ⟨t.size⟩ ((Step.nodeAt kind span).run t) := by
  apply allocates_of_addAt span
  · intro e he
    rw [Step.run, Step.perform, Build.run_bind, Build.run_nodeAt, he]
  · intro t' he
    refine ⟨t', ?_, names_addAt he, fun x _ => rfl, get?_new_addAt he⟩
    rw [Step.run, Step.perform, Build.run_bind, Build.run_nodeAt, he]
    rfl

theorem allocates_node (t : SyntaxTree) (kind : NodeKind) :
    t.Allocates kind.children [⟨kind, t.hullOf kind, none⟩] ⟨t.size⟩ ((Step.node kind).run t) := by
  have hrun : (Step.node kind).run t = (Step.nodeAt kind (t.hullOf kind)).run t := by
    rw [Step.run, Step.run, Step.perform, Step.perform, Build.run_bind, Build.run_bind,
      Build.run_node, Build.run_nodeAt, add]
  rw [hrun]
  exact t.allocates_nodeAt kind _

/-- The outer node of a block finds its only child as it was just made. -/
theorem exists_add_outer (h : t.add kind = .ok (id, t')) :
    ∃ t'', t'.add (.expr (.block (some ⟨t.size⟩))) = .ok (⟨t.size + 1⟩, t'') ∧
      t''.names = t'.names ∧ (∀ x, x.index < t.size → t''.get? x = t'.get? x) ∧
      ∀ i, t''.get? ⟨t.size + i⟩ =
        [(⟨kind, t.hullOf kind, some ⟨t.size + 1⟩⟩ : Node),
          ⟨.expr (.block (some ⟨t.size⟩)), .hull [t.hullOf kind], none⟩][i]? := by
  have hsize : t'.size = t.size + 1 := size_addAt h
  have hinner : t'.get? ⟨t.size⟩ = some ⟨kind, t.hullOf kind, none⟩ := get?_new_addAt h 0
  have hspan : t'.hullOf (.expr (.block (some ⟨t.size⟩))) = .hull [t.hullOf kind] := by
    change Span.hull [t'.span ⟨t.size⟩] = _
    rw [SyntaxTree.span, hinner]
    rfl
  have hfree : t'.Free ⟨t.size⟩ := by
    constructor
    · rw [hsize]
      exact Nat.lt_succ_self _
    · rw [parent?, hinner]
      rfl
  obtain ⟨t'', h'⟩ := (t'.exists_addAt_iff (.expr (.block (some ⟨t.size⟩)))
    (.hull [t.hullOf kind])).mpr (by simpa [NodeKind.children, Expr.children] using hfree)
  have hget := get?_addAt h'
  rw [hsize] at h' hget
  refine ⟨t'', by rw [add, hspan, h'], names_addAt h', ?_, ?_⟩
  · intro x hx
    have hne : x ≠ ⟨t.size⟩ := fun he => Nat.lt_irrefl _ (he ▸ hx)
    have hne' : x ≠ ⟨t.size + 1⟩ := fun he => absurd (he ▸ hx) (by simp)
    rw [hget, if_neg hne']
    simp [NodeKind.children, Expr.children, hne]
  · intro i
    rw [hget]
    rcases i with _ | _ | i
    · simp [NodeKind.children, Expr.children, hinner]
    · simp
    · have hnone := get?_new_addAt h (i + 2)
      simp [hnone]

end SyntaxTree

namespace Shorthand

/-- The kind of the node that a shorthand starts with, and the names with those that it gives out. -/
def start (names : NameTable) : Shorthand → NodeKind × NameTable
  | lit kind text => ((.expr (.lit ⟨kind, (names.intern text).1⟩)), (names.intern text).2)
  | boolLit value =>
    let text := if value then "true" else "false"
    (.expr (.lit ⟨.bool value, (names.intern text).1⟩), (names.intern text).2)
  | pathExpr text =>
    (.expr (.path (SymbolPath.parse names text).1), (SymbolPath.parse names text).2)
  | pathTypeExpr text =>
    (.typeExpr (.path (SymbolPath.parse names text).1), (SymbolPath.parse names text).2)
  | refTypeExpr inner mutable => (.typeExpr (.ref (some inner) mutable), names)
  | binding name =>
    (.pat (.binding (names.intern name).1 false false none), (names.intern name).2)
  | block stmts tail => (.block stmts tail, names)
  | bind pat ty init => (.stmt (.bind (some pat) ty init), names)
  | param pat ty => (.decl (.param (some pat) ty), names)
  | fnItem name sig => (.item (.fn (names.intern name).1 sig), (names.intern name).2)

/-- The nodes that a shorthand makes. A block is two of them, the outer one around the inner one. -/
def made (t : SyntaxTree) (s : Shorthand) : List Node :=
  let kind := (s.start t.names).1
  match s with
  | block .. => [⟨kind, t.hullOf kind, some ⟨t.size + 1⟩⟩,
      ⟨.expr (.block (some ⟨t.size⟩)), .hull [t.hullOf kind], none⟩]
  | _ => [⟨kind, t.hullOf kind, none⟩]

theorem run_of_not_block {s : Shorthand} (hs : ∀ stmts tail, s ≠ .block stmts tail)
    (t : SyntaxTree) : (Step.shorthand s).run t =
      (Step.node (s.start t.names).1).run { t with names := (s.start t.names).2 } := by
  cases s with
  | block stmts tail => exact absurd rfl (hs stmts tail)
  | _ => rfl

end Shorthand

namespace SyntaxTree

variable {t : SyntaxTree}

theorem allocates_block (t : SyntaxTree) (stmts : List NodeId) (tail : Option NodeId) :
    t.Allocates (NodeKind.block stmts tail).children (Shorthand.made t (.block stmts tail))
      ⟨t.size + 1⟩ ((Step.shorthand (.block stmts tail)).run t) := by
  apply allocates_of_addAt (t.hullOf (.block stmts tail))
  · intro e he
    rw [Step.run, Step.perform, Shorthand.build, Build.run_bind, Build.run_bind, Build.run_node,
      add, he]
  · intro t' he
    obtain ⟨t'', hadd, hnames, hold, hnew⟩ := exists_add_outer he
    refine ⟨t'', ?_, hnames.trans (names_addAt he), hold, hnew⟩
    rw [Step.run, Step.perform, Shorthand.build, Build.run_bind, Build.run_bind, Build.run_node,
      add, he]
    dsimp only
    rw [Build.run_node, hadd]
    rfl

theorem allocates_shorthand (t : SyntaxTree) (s : Shorthand) :
    ({ t with names := (s.start t.names).2 } : SyntaxTree).Allocates (s.start t.names).1.children
      (s.made t) ⟨t.size + (s.made t).length - 1⟩ ((Step.shorthand s).run t) := by
  cases s with
  | block stmts tail => exact t.allocates_block stmts tail
  | _ =>
    rw [Shorthand.run_of_not_block (by simp)]
    exact allocates_node _ _

/-- However nodes are added, the step fails exactly if a listed child is not in the tree or has a
parent; it then reports the first such child and touches no node. Otherwise the new node has the
next number and no parent, its children have it as their parent, and nothing else is changed. A
block makes both of its nodes or none. -/
theorem allocation_atomic (t : SyntaxTree) :
    (∀ kind span, t.Allocates kind.children [⟨kind, span, none⟩] ⟨t.size⟩
      ((Step.nodeAt kind span).run t)) ∧
    (∀ kind, t.Allocates kind.children [⟨kind, t.hullOf kind, none⟩] ⟨t.size⟩
      ((Step.node kind).run t)) ∧
    ∀ s : Shorthand,
      ({ t with names := (s.start t.names).2 } : SyntaxTree).Allocates
        (s.start t.names).1.children (s.made t) ⟨t.size + (s.made t).length - 1⟩
        ((Step.shorthand s).run t) :=
  ⟨t.allocates_nodeAt, t.allocates_node, t.allocates_shorthand⟩

end SyntaxTree

end TypeDerivation
