import TypeDerivation.Engine.Answer
import TypeDerivation.Proofs.Derivation.Requests

/-!
The engine with its guards as a policy: a request is let in with the guards for the work on it, or
it is turned away and answered as unknown. Taking a guard away is then another policy.
-/

namespace TypeDerivation

abbrev Policy := Guards → Request → Option Guards

namespace Guards

def deepen (limit : Option Nat) (g : Guards) (_ : Request) : Option Guards :=
  if limit.any (· ≤ g.depth) then none else some { g with depth := g.depth + 1 }

def enter (limit : Option Nat) (g : Guards) (r : Request) : Option Guards :=
  (g.deepen limit r).bind fun g =>
    match r.decl? with
    | none => some g
    | some decl => if decl ∈ g.active then none else some { g with active := decl :: g.active }

variable {limit : Option Nat} {g g' : Guards} {r : Request}

theorem deepen_eq_some (h : g.deepen limit r = some g') : g' = { g with depth := g.depth + 1 } := by
  rw [deepen] at h
  split at h <;> cases h
  rfl

theorem deepen_of_lt {k : Nat} (h : g.depth < k) :
    g.deepen (some k) r = some { g with depth := g.depth + 1 } := by
  rw [deepen, if_neg (by simpa using h)]

theorem enter_none_eq (g : Guards) (r : Request) :
    g.enter none r = match r.decl? with
      | none => some { g with depth := g.depth + 1 }
      | some decl =>
        if decl ∈ g.active then none else some ⟨g.depth + 1, decl :: g.active⟩ := rfl

theorem enter_idle_entity (limit : Option Nat) (id : NodeId) :
    idle.enter limit (.entity id) = if limit = some 0 then none else some ⟨1, [id]⟩ := by
  cases limit with
  | none => rfl
  | some n => cases n <;> rfl

theorem enter_eq_some (h : g.enter limit r = some g') :
    g'.depth = g.depth + 1 ∧ (r.decl? = none → g'.active = g.active) ∧
      ∀ decl ∈ r.decl?, decl ∉ g.active ∧ g'.active = decl :: g.active := by
  obtain ⟨g₁, h₁, h⟩ := Option.bind_eq_some_iff.mp h
  cases deepen_eq_some h₁
  cases hd : r.decl? with
  | none =>
    rw [hd] at h
    cases h
    exact ⟨rfl, fun _ => rfl, by simp⟩
  | some decl =>
    rw [hd] at h
    dsimp only at h
    split at h
    · cases h
    · rename_i hmem
      cases h
      refine ⟨rfl, by simp, ?_⟩
      rintro _ ⟨⟩
      exact ⟨hmem, rfl⟩

end Guards

namespace Guarded

variable {work : Guarded Ty}

theorem deeper_eq (h : work.Restores) (limit : Option Nat) (g : Guards) (r : Request) :
    work.deeper limit g = match g.deepen limit r with
      | none => (.ok .unknown, g)
      | some g' => ((work g').1, g) := by
  rw [deeper, Guards.deepen]
  split
  · rfl
  · simp [h _]

end Guarded

theorem Request.guarded_eq {work : Guarded Ty} (h : work.Restores) (limit : Option Nat)
    (g : Guards) (r : Request) :
    r.guarded limit work g = match g.enter limit r with
      | none => (.ok .unknown, g)
      | some g' => ((work g').1, g) := by
  have hexcl (decl : NodeId) (r : Request) (hr : r.decl? = some decl) :
      (work.exclusive decl).deeper limit g = match g.enter limit r with
        | none => (.ok .unknown, g)
        | some g' => ((work g').1, g) := by
    rw [Guarded.deeper_eq (h.exclusive decl) limit g r, Guards.enter, hr]
    cases g.deepen limit r with
    | none => rfl
    | some g₁ =>
      rw [Option.bind_some]
      dsimp only
      rw [Guarded.exclusive]
      split <;> rfl
  cases r with
  | expr id | typeExpr id =>
    rw [Request.guarded, Guarded.deeper_eq h limit g, Guards.enter]
    cases g.deepen limit _ <;> rfl
  | entity decl => exact hexcl decl (.entity decl) rfl
  | item decl => exact hexcl decl (.item decl) rfl

namespace Context

variable (c : Context) {policy : Policy}

/-- The replies under a policy while at most `fuel` requests are open inside each other. -/
def replies (policy : Policy) : Nat → Guards → Replies
  | 0, g, r =>
    match policy g r with
    | none => .ok .unknown
    | some _ => .error .exhausted
  | fuel + 1, g, r =>
    match policy g r with
    | none => .ok .unknown
    | some g' => (c.rule r).outcome (replies policy fuel g')

theorem answer_eq_replies (fuel : Nat) (r : Request) (g : Guards) :
    c.answer fuel r g = (c.replies (Guards.enter c.settings.maxDepth) fuel g r, g) := by
  induction fuel generalizing r g with
  | zero =>
    rw [answer, Request.guarded_eq (Guarded.restores_fail _), replies]
    cases g.enter c.settings.maxDepth r <;> rfl
  | succ fuel ih =>
    have hrestores := Derivation.restores_run (c.restores_answer fuel) (c.rule r)
    rw [answer, Request.guarded_eq hrestores, replies]
    cases g.enter c.settings.maxDepth r with
    | none => rfl
    | some g' =>
      dsimp only
      rw [Derivation.run_eq_outcome (c.restores_answer fuel)]
      simp only [ih]

theorem run_eq_replies {α : Type} (fuel : Nat) (d : Derivation α) (g : Guards) :
    d.run (c.answer fuel) g =
      (d.outcome (c.replies (Guards.enter c.settings.maxDepth) fuel g), g) := by
  rw [Derivation.run_eq_outcome (c.restores_answer fuel)]
  simp only [answer_eq_replies]

theorem eval_stop {α : Type} (fault : Fault) (g : Guards) :
    c.eval (Derivation.stop fault : Derivation α) g = (.error fault, g) := rfl

/-- `c.Underway policy fuel d g r`: working `d` out under no guards leads to the request `r` under
the guards `g`, which count the requests that are open around it. -/
inductive Underway {α : Type} (policy : Policy) (fuel : Nat) (d : Derivation α) :
    Guards → Request → Prop where
  | outer {r : Request} : d.Asks (c.replies policy fuel .idle) r → Underway policy fuel d .idle r
  | inner {g g' : Guards} {r r' : Request} : Underway policy fuel d g r → policy g r = some g' →
    (c.rule r).Asks (c.replies policy fuel g') r' → Underway policy fuel d g' r'

variable {c} {g g' : Guards} {r : Request} {fuel : Nat}

theorem replies_of_refused (h : policy g r = none) (fuel : Nat) :
    c.replies policy fuel g r = .ok .unknown := by
  cases fuel <;> rw [replies, h]

theorem replies_of_admitted (h : policy g r = some g') (fuel : Nat) :
    c.replies policy (fuel + 1) g r = (c.rule r).outcome (c.replies policy fuel g') := by
  rw [replies, h]

theorem replies_zero_of_admitted (h : policy g r = some g') :
    c.replies policy 0 g r = .error .exhausted := by
  rw [replies, h]

/-- What lies behind an answer: the request was turned away, or the rule led to it. -/
theorem replies_eq_ok {ty : Ty} (h : c.replies policy fuel g r = .ok ty) :
    policy g r = none ∧ ty = .unknown ∨ ∃ g' n, policy g r = some g' ∧ fuel = n + 1 ∧
      (c.rule r).outcome (c.replies policy n g') = .ok ty := by
  cases hp : policy g r with
  | none =>
    rw [replies_of_refused hp] at h
    cases h
    exact .inl ⟨rfl, rfl⟩
  | some g' =>
    cases fuel with
    | zero =>
      rw [replies_zero_of_admitted hp] at h
      cases h
    | succ n =>
      rw [replies_of_admitted hp] at h
      exact .inr ⟨g', n, rfl, rfl, h⟩

theorem replies_stable (h : c.replies policy fuel g r ≠ .error .exhausted) {fuel' : Nat}
    (hle : fuel ≤ fuel') : c.replies policy fuel' g r = c.replies policy fuel g r := by
  induction fuel generalizing fuel' g r with
  | zero =>
    cases hp : policy g r with
    | none => rw [replies_of_refused hp, replies_of_refused hp]
    | some g' => exact absurd (replies_zero_of_admitted hp) h
  | succ fuel ih =>
    obtain ⟨fuel', rfl⟩ : ∃ n, fuel' = n + 1 := ⟨fuel' - 1, by omega⟩
    cases hp : policy g r with
    | none => rw [replies_of_refused hp, replies_of_refused hp]
    | some g' =>
      rw [replies_of_admitted hp] at h
      rw [replies_of_admitted hp, replies_of_admitted hp]
      exact Derivation.outcome_stable h fun r hr => ih hr (by omega)

/-- Where fuel does not run out, the work on a request may as well have as much of it. -/
theorem replies_unfold (hp : policy g r = some g')
    (h : c.replies policy fuel g r ≠ .error .exhausted) :
    c.replies policy fuel g r = (c.rule r).outcome (c.replies policy fuel g') := by
  cases fuel with
  | zero => exact absurd (replies_zero_of_admitted hp) h
  | succ n =>
    rw [replies_of_admitted hp] at h ⊢
    exact (Derivation.outcome_stable h fun r' hr' => replies_stable hr' (Nat.le_succ n)).symm

end Context

end TypeDerivation
