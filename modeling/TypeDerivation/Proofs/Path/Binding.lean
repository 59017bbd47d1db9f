import TypeDerivation.Proofs.Path.Spelling
import TypeDerivation.Proofs.Resolution
import TypeDerivation.Proofs.Tree.Names

/-!
Declarations bound to the text of a path. The table holds the text as it was given, and a path is
looked up as it is rendered, so it finds what was bound to the text it was read from only where the
two are the same.
-/

namespace TypeDerivation

namespace ResolvedNames

/-- What a table is told at one time. -/
inductive Entry where
  | reference (node decl : NodeId)
  | path (text : String) (decl : NodeId)

def enter (r : ResolvedNames) : Entry → ResolvedNames
  | .reference node decl => r.bindReference node decl
  | .path text decl => r.bindPath text decl

def enterAll (r : ResolvedNames) (entries : List Entry) : ResolvedNames := entries.foldl enter r

variable {r r' : ResolvedNames} {text text' : String} {decl : NodeId} {entries : List Entry}
  {t : SyntaxTree} {p : SymbolPath} {id : NodeId}

theorem paths_bindPath_self : (r.bindPath text decl).paths[text]? = some decl := by
  rw [bindPath, Std.TreeMap.getElem?_insert_self]

theorem paths_bindPath_of_ne (h : text ≠ text') :
    (r.bindPath text decl).paths[text']? = r.paths[text']? := by
  rw [bindPath, Std.TreeMap.getElem?_insert, if_neg]
  intro he
  exact h (Std.LawfulEqCmp.eq_of_compare he)

theorem paths_enterAll_of_not_mem (h : ∀ decl, Entry.path text decl ∉ entries) :
    (r.enterAll entries).paths[text]? = r.paths[text]? := by
  induction entries generalizing r with
  | nil => rfl
  | cons e rest ih =>
    have hrest := ih (r := r.enter e) fun decl hmem => h decl (List.mem_cons_of_mem _ hmem)
    have hstep : (r.enter e).paths[text]? = r.paths[text]? := by
      cases e with
      | reference node decl => rfl
      | path text' decl =>
        refine paths_bindPath_of_ne ?_
        rintro rfl
        exact h decl List.mem_cons_self
    exact hrest.trans hstep

theorem paths_enterAll_congr (h : r.paths[text]? = r'.paths[text]?) (entries : List Entry) :
    (r.enterAll entries).paths[text]? = (r'.enterAll entries).paths[text]? := by
  induction entries generalizing r r' with
  | nil => exact h
  | cons e rest ih =>
    apply ih
    cases e with
    | reference node decl => exact h
    | path text' decl =>
      by_cases he : text' = text
      · subst he
        exact paths_bindPath_self.trans paths_bindPath_self.symm
      · exact (paths_bindPath_of_ne he).trans (h.trans (paths_bindPath_of_ne he).symm)

theorem path?_of_not_bare (hv : p.isBareSelfValue = false) (ht : p.isBareSelfType = false)
    (scope : NodeId) : r.path? t p scope = r.paths[p.render t.names]? := by
  rw [path?, ht, ordinaryPath?, hv]
  rfl

theorem reference?_of_spelled (hp : t.spelledPath? id = some p)
    (hown : r.references[id.index]? = none) : r.reference? t id = r.path? t p id := by
  rw [reference?, hown, hp]
  rfl

end ResolvedNames

open SymbolPath

theorem SyntaxTree.Built.render_parsePath {t : SyntaxTree} (ht : t.Built) (text : String)
    (steps : List Step) : (t.parsePath text).1.render
      ((t.parsePath text).2.afterSteps steps).names = canonical text :=
  have hstable := SyntaxTree.stable_retains (parse t.names text).2
  render_parse ht.sound ht.text_empty (hstable.afterSteps steps (.refl _))

/-- What a table is told of the text of a path is what the path read from the text, and each node
that spells this path, leads to, if there is nothing in the text but words and the colons between
them. Else it is as if the table had not been told. -/
theorem binding_answers_neat_text {t : SyntaxTree} (ht : t.Built) (text : String)
    (hv : (t.parsePath text).1.isBareSelfValue = false)
    (hT : (t.parsePath text).1.isBareSelfType = false) (steps : List Step) (r : ResolvedNames)
    (decl : NodeId) {later : List ResolvedNames.Entry}
    (hlater : ∀ decl', .path text decl' ∉ later) :
    let p := (t.parsePath text).1
    let t' := (t.parsePath text).2.afterSteps steps
    let bound := (r.bindPath text decl).enterAll later
    let unbound := r.enterAll later
    (∀ scope, bound.resolver.path t' p scope =
      if Neat text then some decl else unbound.resolver.path t' p scope) ∧
    ∀ id, t'.spelledPath? id = some p → bound.references[id.index]? = none →
      bound.resolver.reference t' id =
        if Neat text then some decl else unbound.resolver.path t' p id := by
  intro p t' bound unbound
  have hrender : p.render t'.names = canonical text := ht.render_parsePath text steps
  have hlookup (names : ResolvedNames) (scope : NodeId) :
      names.resolver.path t' p scope = names.paths[canonical text]? := by
    rw [← hrender]
    exact ResolvedNames.path?_of_not_bare hv hT scope
  have hpath (scope : NodeId) : bound.resolver.path t' p scope =
      if Neat text then some decl else unbound.resolver.path t' p scope := by
    rw [hlookup, hlookup]
    by_cases hneat : Neat text
    · rw [if_pos hneat, canonical_eq_iff.mpr hneat]
      exact (ResolvedNames.paths_enterAll_of_not_mem hlater).trans ResolvedNames.paths_bindPath_self
    · have hne : text ≠ canonical text := fun he => hneat (canonical_eq_iff.mp he.symm)
      rw [if_neg hneat]
      exact ResolvedNames.paths_enterAll_congr (ResolvedNames.paths_bindPath_of_ne hne) later
  refine ⟨hpath, ?_⟩
  intro id hid hown
  rw [← hpath id]
  exact ResolvedNames.reference?_of_spelled hid hown

def oneStruct : SyntaxTree :=
  .afterSteps .empty [.intern "S", .node (.item (.struct ⟨7⟩ [] []))]

theorem oneStruct_built : oneStruct.Built := ⟨_, rfl⟩

theorem binding_answers_neat_text_qualified :
    let p := (oneStruct.parsePath "geo::S").1
    let t := (oneStruct.parsePath "geo::S").2.afterSteps [.shorthand (.pathExpr "geo::S")]
    let later : List ResolvedNames.Entry := [.path "S" ⟨5⟩, .reference ⟨9⟩ ⟨5⟩, .path "::geo::S" ⟨5⟩]
    let bound := (ResolvedNames.empty.bindPath "geo::S" ⟨0⟩).enterAll later
    oneStruct.Built ∧ p.isBareSelfValue = false ∧ p.isBareSelfType = false ∧
      (∀ decl, .path "geo::S" decl ∉ later) ∧ Neat "geo::S" ∧ t.spelledPath? ⟨1⟩ = some p ∧
      bound.references[1]? = none ∧ bound.resolver.path t p ⟨1⟩ = some ⟨0⟩ ∧
      bound.resolver.reference t ⟨1⟩ = some ⟨0⟩ := by
  intro p t later bound
  have hlater : ∀ decl, .path "geo::S" decl ∉ later := by simp [later]
  have hneat : Neat "geo::S" := by decide
  have h := binding_answers_neat_text oneStruct_built "geo::S" rfl rfl
    [.shorthand (.pathExpr "geo::S")] .empty ⟨0⟩ hlater
  exact ⟨oneStruct_built, rfl, rfl, hlater, hneat, rfl, rfl, (h.1 ⟨1⟩).trans (if_pos hneat),
    (h.2 ⟨1⟩ rfl rfl).trans (if_pos hneat)⟩

/-- Bound to its text, colons in front and all, a path is not found under that text. -/
theorem binding_with_leading_colons_unanswered :
    let p := (oneStruct.parsePath "::S").1
    let t := oneStruct.afterSteps [.shorthand (.pathExpr "::S")]
    let bound := ResolvedNames.empty.bindPath "::S" ⟨0⟩
    t.Built ∧ p.isBareSelfValue = false ∧ p.isBareSelfType = false ∧
      bound.paths["::S"]? = some ⟨0⟩ ∧ t.spelledPath? ⟨1⟩ = some p ∧ bound.references[1]? = none ∧
      bound.resolver.path t p ⟨1⟩ = none ∧ bound.resolver.reference t ⟨1⟩ = none :=
  ⟨oneStruct_built.step (.shorthand (.pathExpr "::S")), rfl, rfl, rfl, rfl, rfl, rfl, rfl⟩

end TypeDerivation
