import TypeDerivation.Proofs.Relabelling.Tree
import TypeDerivation.Proofs.Resolution

/-!
Tables that say the same about the same nodes and texts. A path is looked up by its text, so it
leads to the same declaration.
-/

namespace TypeDerivation

/-- What the one table says of a node of the tree, the other one says of the node that it is taken
to; and both say the same of a text. -/
structure ResolvedNames.Carries (ρ : Relabelling) (t : SyntaxTree) (r r' : ResolvedNames) :
    Prop where
  references : ∀ {id : NodeId}, id.index < t.size →
    r'.references[(ρ.node id).index]? = r.references[id.index]?.map ρ.node
  paths : ∀ text : String, r'.paths[text]? = r.paths[text]?.map ρ.node

namespace ResolvedNames

variable {ρ : Relabelling} {t t' : SyntaxTree} {r r' : ResolvedNames} {p : SymbolPath}

/-- Where all declarations of a table are nodes, no other numbers matter. -/
theorem Carries.onNodes (h : Carries ρ t r r') (hr : r.Within t) :
    Carries (t.onNodes ρ) t r r' := by
  constructor
  · intro id hid
    rw [SyntaxTree.onNodes_node hid, h.references hid, Relabelling.map_eq_map_iff]
    intro decl hd
    exact (SyntaxTree.onNodes_node (hr.references hd)).symm
  · intro text
    rw [h.paths, Relabelling.map_eq_map_iff]
    intro decl hd
    exact (SyntaxTree.onNodes_node (hr.paths hd)).symm

end ResolvedNames

namespace SymbolPath

variable {ρ : Relabelling} (p : SymbolPath)

theorem isBareSelfValue_relabel : (p.relabel ρ).isBareSelfValue = p.isBareSelfValue := by
  obtain ⟨head, segments⟩ := p
  cases head <;> simp [relabel, PathHead.relabel, isBareSelfValue]

theorem isBareSelfType_relabel : (p.relabel ρ).isBareSelfType = p.isBareSelfType := by
  obtain ⟨head, segments⟩ := p
  cases head <;> simp [relabel, PathHead.relabel, isBareSelfType]

theorem head_relabel_eq_selfType_iff : (p.relabel ρ).head = .selfType ↔ p.head = .selfType := by
  obtain ⟨head, segments⟩ := p
  cases head <;> simp [relabel, PathHead.relabel]

end SymbolPath

theorem SyntaxTree.mentions_of_spelledPath? {t : SyntaxTree} {id : NodeId} {p : SymbolPath}
    (hs : t.spelledPath? id = some p) : ∀ n ∈ p.names, t.Mentions n := by
  intro n hn
  rw [spelledPath?] at hs
  split at hs <;> cases hs
  · rename_i hk
    exact ⟨id, _, hk, hn⟩
  · rename_i hk
    exact ⟨id, _, hk, List.mem_append_left _ hn⟩
  · rename_i hk
    exact ⟨id, _, hk, hn⟩
  · rename_i hk
    exact ⟨id, _, hk, List.mem_append_left _ hn⟩
  · rename_i hk
    exact ⟨id, _, hk, hn⟩

namespace SyntaxTree.Mirrors

variable {ρ : Relabelling} {t t' : SyntaxTree} {r r' : ResolvedNames} {p : SymbolPath}
  (h : Mirrors ρ t t')
include h

theorem renderSegments {segments : List Name} (hs : ∀ n ∈ segments, t.Mentions n) :
    SymbolPath.renderSegments t'.names (segments.map ρ.name) =
      SymbolPath.renderSegments t.names segments := by
  induction segments with
  | nil => rfl
  | cons n rest ih =>
    have htext : t'.names.text (ρ.name n) = t.names.text n := h.text (hs n List.mem_cons_self)
    rw [List.map_cons, SymbolPath.renderSegments, htext,
      ih fun m hm => hs m (List.mem_cons_of_mem _ hm), SymbolPath.renderSegments]

theorem render (hp : ∀ n ∈ p.names, t.Mentions n) :
    (p.relabel ρ).render t'.names = p.render t.names := by
  obtain ⟨head, segments⟩ := p
  rw [SymbolPath.render, SymbolPath.render]
  cases head with
  | named n =>
    have htext : t'.names.text (ρ.name n) = t.names.text n := h.text (hp n List.mem_cons_self)
    have hs := h.renderSegments fun m hm => hp m (List.mem_cons_of_mem _ hm)
    exact congrArg₂ (· ++ ·) htext hs
  | selfValue | selfType | superModule | crateRoot =>
    exact congrArg (_ ++ ·) (h.renderSegments hp)

variable (hr : r.Carries ρ t r')
include hr

theorem ordinaryPath? (hp : ∀ n ∈ p.names, t.Mentions n) (scope : NodeId) :
    r'.ordinaryPath? t' (p.relabel ρ) (ρ.node scope) =
      (r.ordinaryPath? t p scope).map ρ.node := by
  rw [ResolvedNames.ordinaryPath?, p.isBareSelfValue_relabel, h.render hp, h.receiverAt?, hr.paths,
    ResolvedNames.ordinaryPath?]
  split <;> rfl

theorem selfType? (scope : NodeId) :
    r'.selfType? t' (ρ.node scope) = (r.selfType? t scope).map ρ.node := by
  rw [ResolvedNames.selfType?, h.enclosing? NodeKind.isImplOrTrait_relabel,
    ResolvedNames.selfType?]
  cases t.enclosing? NodeKind.isImplOrTrait scope with
  | none => rfl
  | some owner =>
    simp only [Option.map_some, Option.bind_eq_bind, Option.bind_some]
    rw [h.kind?]
    cases t.kind? owner with
    | none => rfl
    | some k =>
      cases k with
      | item i =>
        cases i with
        | impl _ _ target _ =>
          cases target with
          | none => rfl
          | some target =>
            simp only [Option.map_some, NodeKind.relabel, Item.relabel]
            rw [h.kind?]
            cases hk : t.kind? target with
            | none => rfl
            | some k =>
              cases k with
              | typeExpr e =>
                cases e with
                | path p =>
                  have hp := h.ordinaryPath? hr (p := p) (fun n hn => ⟨target, _, hk, hn⟩) target
                  simp only [Option.map_some, NodeKind.relabel, TypeExpr.relabel,
                    SymbolPath.head_relabel_eq_selfType_iff]
                  split
                  · rfl
                  · exact hp
                | _ => rfl
              | _ => rfl
        | _ => rfl
      | _ => rfl

theorem path? (hp : ∀ n ∈ p.names, t.Mentions n) (scope : NodeId) :
    r'.path? t' (p.relabel ρ) (ρ.node scope) = (r.path? t p scope).map ρ.node := by
  rw [ResolvedNames.path?, p.isBareSelfType_relabel, h.selfType? hr, h.ordinaryPath? hr hp,
    ResolvedNames.path?]
  split <;> rfl

theorem reference? {id : NodeId} (hid : id.index < t.size) :
    r'.reference? t' (ρ.node id) = (r.reference? t id).map ρ.node := by
  rw [ResolvedNames.reference?, hr.references hid, h.spelledPath?, ResolvedNames.reference?]
  cases r.references[id.index]? with
  | some decl => rfl
  | none =>
    cases hs : t.spelledPath? id with
    | none => rfl
    | some p => exact h.path? hr (mentions_of_spelledPath? hs) id

end SyntaxTree.Mirrors

end TypeDerivation
