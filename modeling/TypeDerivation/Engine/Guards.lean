import TypeDerivation.Derivation

/-!
The guards that keep an engine from running in circles: how many requests are open, and which
declarations are being worked out. Work under a guard gives it back however it ends.
-/

namespace TypeDerivation

structure Guards where
  depth : Nat
  active : List NodeId
deriving DecidableEq, Inhabited

def Guards.idle : Guards := ⟨0, []⟩

abbrev Guarded (α : Type) := Guards → Except Fault α × Guards

namespace Guarded

def fail {α : Type} (fault : Fault) : Guarded α := fun g => (.error fault, g)

/-- Work one level deeper. At the limit there is no work, and the type is unknown. -/
def deeper (limit : Option Nat) (work : Guarded Ty) : Guarded Ty := fun g =>
  if limit.any (· ≤ g.depth) then (.ok .unknown, g)
  else
    let r := work { g with depth := g.depth + 1 }
    (r.1, { r.2 with depth := r.2.depth - 1 })

/-- Work on a declaration. If it is being worked on already, its type is unknown. -/
def exclusive (decl : NodeId) (work : Guarded Ty) : Guarded Ty := fun g =>
  if decl ∈ g.active then (.ok .unknown, g)
  else
    let r := work { g with active := decl :: g.active }
    (r.1, { r.2 with active := r.2.active.erase decl })

end Guarded

/-- Every request is one level deeper, and a declaration is worked on by one request at a time. -/
def Request.guarded (limit : Option Nat) (work : Guarded Ty) : Request → Guarded Ty
  | expr _ | typeExpr _ => work.deeper limit
  | entity decl | item decl => (work.exclusive decl).deeper limit

/-- Works a derivation out, its requests from the first to the last. -/
def Derivation.run {α : Type} (answer : Request → Guarded Ty) : Derivation α → Guarded α
  | done a, g => (.ok a, g)
  | stop fault, g => (.error fault, g)
  | ask r next, g =>
    match answer r g with
    | (.ok ty, g) => (next ty).run answer g
    | (.error fault, g) => (.error fault, g)

namespace Guarded

/-- Work that leaves the guards as it found them. -/
def Restores {α : Type} (work : Guarded α) : Prop := ∀ g, (work g).2 = g

theorem restores_fail {α : Type} (fault : Fault) : Restores (fail fault : Guarded α) := fun _ => rfl

theorem Restores.deeper {work : Guarded Ty} (h : work.Restores) (limit : Option Nat) :
    (work.deeper limit).Restores := by
  intro g
  rw [Guarded.deeper]
  split
  · rfl
  · simp [h _]

theorem Restores.exclusive {work : Guarded Ty} (h : work.Restores) (decl : NodeId) :
    (work.exclusive decl).Restores := by
  intro g
  rw [Guarded.exclusive]
  split
  · rfl
  · simp [h _]

end Guarded

theorem Request.restores_guarded {work : Guarded Ty} (h : work.Restores) (limit : Option Nat)
    (r : Request) : (r.guarded limit work).Restores := by
  cases r with
  | expr _ | typeExpr _ => exact h.deeper limit
  | entity decl | item decl => exact (h.exclusive decl).deeper limit

theorem Derivation.restores_run {α : Type} {answer : Request → Guarded Ty}
    (h : ∀ r, (answer r).Restores) (d : Derivation α) : Guarded.Restores (d.run answer) := by
  induction d with
  | done a => exact fun _ => rfl
  | stop fault => exact fun _ => rfl
  | ask r next ih =>
    intro g
    have hg := h r g
    rw [run]
    split
    · rename_i ty g' he
      rw [he] at hg
      rw [ih ty g', ← hg]
    · rename_i fault g' he
      rw [he] at hg
      exact hg

end TypeDerivation
