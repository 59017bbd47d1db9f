import TypeDerivation.Proofs.Tree.Linking
import TypeDerivation.Tree.Step

namespace TypeDerivation

namespace SyntaxTree

/-- What survives new names, and new nodes with the span of their children. -/
structure Growing (P : SyntaxTree → Prop) : Prop where
  renamed : ∀ {t : SyntaxTree} (s : String), P t → P { t with names := (t.names.intern s).2 }
  grown : ∀ {t t' : SyntaxTree} {kind : NodeKind} {id : NodeId},
    P t → t.add kind = .ok (id, t') → P t'

/-- What survives the three ways in which a tree changes. -/
structure Stable (P : SyntaxTree → Prop) : Prop where
  renamed : ∀ {t : SyntaxTree} (s : String), P t → P { t with names := (t.names.intern s).2 }
  added : ∀ {t t' : SyntaxTree} {kind : NodeKind} {span : Span} {id : NodeId},
    P t → t.addAt kind span = .ok (id, t') → P t'
  moved : ∀ {t : SyntaxTree} (id : NodeId) (span : Span), P t →
    P { t with nodes := t.nodes.modify id.index ({ · with span := span }) }

/-- What in addition holds of the empty tree. -/
structure Lasting (P : SyntaxTree → Prop) : Prop extends Stable P where
  empty : P empty

theorem Stable.growing {P : SyntaxTree → Prop} (hP : Stable P) : Growing P :=
  ⟨hP.renamed, hP.added⟩

namespace Growing

variable {P : SyntaxTree → Prop} {t : SyntaxTree} (hP : Growing P)
include hP

theorem internAll (ss : List String) (ht : P t) : P { t with names := (t.names.internAll ss).2 } := by
  induction ss generalizing t with
  | nil => exact ht
  | cons s rest ih => exact ih (hP.renamed s ht)

theorem parse (text : String) (ht : P t) :
    P { t with names := (SymbolPath.parse t.names text).2 } := by
  rw [SymbolPath.table_parse]
  exact hP.internAll _ ht

end Growing

end SyntaxTree

namespace Build

open SyntaxTree

variable {α β : Type} {P : SyntaxTree → Prop}

theorem run_bind (b : Build α) (f : α → Build β) (t : SyntaxTree) :
    (b >>= f).run.run t = match b.run.run t with
      | (.ok a, t') => (f a).run.run t'
      | (.error e, t') => (.error e, t') := by
  rw [ExceptT.run_bind, StateT.run_bind]
  change (match b.run.run t with | (r, t') => _ : Except BuildError β × SyntaxTree) = _
  obtain ⟨a | e, t'⟩ := b.run.run t <;> rfl

theorem run_get (t : SyntaxTree) : (get : Build SyntaxTree).run.run t = (.ok t, t) := rfl

theorem run_lift (e : Except BuildError α) (t : SyntaxTree) :
    (liftM e : Build α).run.run t = (e, t) := by
  cases e <;> rfl

theorem run_nodeAt (kind : NodeKind) (span : Span) (t : SyntaxTree) :
    (nodeAt kind span).run.run t = match t.addAt kind span with
      | .ok (id, t') => (.ok id, t')
      | .error e => (.error e, t) := by
  rw [nodeAt, run_bind, run_get]
  dsimp only
  rw [run_bind, run_lift]
  cases t.addAt kind span <;> rfl

theorem run_node (kind : NodeKind) (t : SyntaxTree) :
    (node kind).run.run t = match t.add kind with
      | .ok (id, t') => (.ok id, t')
      | .error e => (.error e, t) := by
  rw [node, run_bind, run_get]
  dsimp only
  rw [run_bind, run_lift]
  cases t.add kind <;> rfl

theorem run_setSpan (id : NodeId) (span : Span) (t : SyntaxTree) :
    (setSpan id span).run.run t = match t.setSpan id span with
      | .ok t' => (.ok (), t')
      | .error e => (.error e, t) := by
  rw [setSpan, run_bind, run_get]
  dsimp only
  rw [run_bind, run_lift]
  cases t.setSpan id span <;> rfl

def Keeps (P : SyntaxTree → Prop) (b : Build α) : Prop := ∀ t, P t → P (b.run.run t).2

theorem keeps_pure (a : α) : Keeps P (pure a) := fun _ h => h

theorem Keeps.bind {b : Build α} {f : α → Build β} (hb : Keeps P b) (hf : ∀ a, Keeps P (f a)) :
    Keeps P (b >>= f) := by
  intro t ht
  have h := hb t ht
  rw [run_bind]
  split
  · rename_i a t' he
    rw [he] at h
    exact hf a t' h
  · rename_i e t' he
    rw [he] at h
    exact h

theorem keeps_nodeAt (hP : Stable P) (kind : NodeKind) (span : Span) :
    Keeps P (nodeAt kind span) := by
  intro t ht
  rw [run_nodeAt]
  cases he : t.addAt kind span with
  | ok p => exact hP.added ht he
  | error e => exact ht

theorem keeps_node (hP : Growing P) (kind : NodeKind) : Keeps P (node kind) := by
  intro t ht
  rw [run_node]
  cases he : t.add kind with
  | ok p => exact hP.grown ht he
  | error e => exact ht

theorem keeps_setSpan (hP : Stable P) (id : NodeId) (span : Span) : Keeps P (setSpan id span) := by
  intro t ht
  rw [run_setSpan, SyntaxTree.setSpan]
  by_cases hi : id.index < t.size
  · rw [if_pos hi]
    exact hP.moved id span ht
  · rw [if_neg hi]
    exact ht

theorem keeps_intern (hP : Growing P) (s : String) : Keeps P (intern s) :=
  fun _ ht => hP.renamed s ht

theorem keeps_path (hP : Growing P) (s : String) : Keeps P (path s) :=
  fun _ ht => hP.parse s ht

theorem keeps_shorthand (hP : Growing P) (s : Shorthand) : Keeps P s.build := by
  cases s with
  | lit | boolLit => exact (keeps_intern hP _).bind fun _ => keeps_node hP _
  | pathExpr | pathTypeExpr => exact (keeps_path hP _).bind fun _ => keeps_node hP _
  | refTypeExpr | bind | param => exact keeps_node hP _
  | binding | fnItem => exact (keeps_intern hP _).bind fun _ => keeps_node hP _
  | block => exact (keeps_node hP _).bind fun _ => keeps_node hP _

theorem keeps_perform (hP : Stable P) (s : Step) : Keeps P s.perform := by
  cases s with
  | intern => exact (keeps_intern hP.growing _).bind fun _ => keeps_pure _
  | path => exact (keeps_path hP.growing _).bind fun _ => keeps_pure _
  | node => exact (keeps_node hP.growing _).bind fun _ => keeps_pure _
  | nodeAt => exact (keeps_nodeAt hP _ _).bind fun _ => keeps_pure _
  | setSpan => exact (keeps_setSpan hP _ _).bind fun _ => keeps_pure _
  | shorthand s => exact (keeps_shorthand hP.growing s).bind fun _ => keeps_pure _

end Build

namespace SyntaxTree

theorem Stable.afterSteps {P : SyntaxTree → Prop} (hP : Stable P) {t : SyntaxTree}
    (steps : List Step) (ht : P t) : P (t.afterSteps steps) := by
  induction steps generalizing t with
  | nil => exact ht
  | cons s rest ih => exact ih (Build.keeps_perform hP s t ht)

theorem Lasting.of_built {P : SyntaxTree → Prop} (hP : Lasting P) {t : SyntaxTree} (ht : t.Built) :
    P t := by
  obtain ⟨steps, rfl⟩ := ht
  exact hP.afterSteps steps hP.empty

/-- A node holds earlier nodes only, and its parent is a later one. -/
structure Ordered (t : SyntaxTree) : Prop where
  child_lt : ∀ {id kind child}, t.kind? id = some kind → child ∈ kind.children →
    child.index < id.index
  lt_parent : ∀ {id parent}, t.parent? id = some parent → id.index < parent.index
  parent_lt : ∀ {id parent}, t.parent? id = some parent → parent.index < t.size

theorem ordered_lasting : Lasting Ordered where
  empty := ⟨fun h => by simp [kind?, get?, empty] at h, fun h => by simp [parent?, get?, empty] at h,
    fun h => by simp [parent?, get?, empty] at h⟩
  renamed _ h := ⟨h.child_lt, h.lt_parent, h.parent_lt⟩
  added {t t' kind span id} h ha := by
    refine ⟨?_, ?_, ?_⟩
    · intro x k child hk hc
      rw [kind?_addAt ha] at hk
      by_cases hx : x = ⟨t.size⟩
      · rw [if_pos hx] at hk
        cases hk
        rw [hx]
        exact lt_of_addAt ha hc
      · rw [if_neg hx] at hk
        exact h.child_lt hk hc
    · intro x p hp
      rw [parent?_addAt ha] at hp
      by_cases hx : x ∈ kind.children
      · rw [if_pos hx] at hp
        cases hp
        exact lt_of_addAt ha hx
      · rw [if_neg hx] at hp
        exact h.lt_parent hp
    · intro x p hp
      rw [parent?_addAt ha] at hp
      rw [size_addAt ha]
      by_cases hx : x ∈ kind.children
      · rw [if_pos hx] at hp
        cases hp
        exact Nat.lt_succ_self _
      · rw [if_neg hx] at hp
        have := h.parent_lt hp
        omega
  moved id span h := by
    refine ⟨?_, ?_, ?_⟩
    · intro x k child hk hc
      rw [kind?_modify_span] at hk
      exact h.child_lt hk hc
    · intro x p hp
      rw [parent?_modify_span] at hp
      exact h.lt_parent hp
    · intro x p hp
      rw [parent?_modify_span] at hp
      have := h.parent_lt hp
      simpa [size] using this

theorem Built.ordered {t : SyntaxTree} (ht : t.Built) : t.Ordered := ordered_lasting.of_built ht

end SyntaxTree

end TypeDerivation
