import TypeDerivation.Proofs.Engine.Termination

/-!
The engine without the guard on declarations, which only the depth keeps from going on forever,
and the answers that the rules give with no guard at all.
-/

namespace TypeDerivation.Context

open TypeDerivation.Derivation

section

variable (c : Context) {α : Type}

/-- Answers a request at most `k` requests deep, whatever is being worked on. -/
def unguarded (k : Nat) : Nat → Request → Guarded Ty
  | 0, _ => (Guarded.fail .exhausted).deeper (some k)
  | fuel + 1, r => ((c.rule r).run (unguarded k fuel)).deeper (some k)

def evalUnguarded (k : Nat) (d : Derivation α) : Guarded α := d.run (c.unguarded k k)

/-- The depth does not cut anything off while the unguarded engine works `d` out. -/
def Uncut (k : Nat) (d : Derivation α) : Prop :=
  ∀ g r, c.Underway (Guards.deepen (some k)) k d g r → g.depth < k

/-- The replies of the rules alone, by a derivation that is at most `height` requests high. -/
def derived : Nat → Replies
  | 0, _ => .error .exhausted
  | height + 1, r => (c.rule r).outcome (derived height)

theorem restores_unguarded (k fuel : Nat) (r : Request) : (c.unguarded k fuel r).Restores := by
  induction fuel generalizing r with
  | zero => exact (Guarded.restores_fail _).deeper _
  | succ fuel ih => exact (Derivation.restores_run ih _).deeper _

theorem unguarded_eq_replies (k fuel : Nat) (r : Request) (g : Guards) :
    c.unguarded k fuel r g = (c.replies (Guards.deepen (some k)) fuel g r, g) := by
  induction fuel generalizing r g with
  | zero =>
    rw [unguarded, Guarded.deeper_eq (Guarded.restores_fail _) _ g r, replies]
    cases g.deepen (some k) r <;> rfl
  | succ fuel ih =>
    have hrestores := Derivation.restores_run (c.restores_unguarded k fuel) (c.rule r)
    rw [unguarded, Guarded.deeper_eq hrestores _ g r, replies]
    cases g.deepen (some k) r with
    | none => rfl
    | some g' =>
      dsimp only
      rw [Derivation.run_eq_outcome (c.restores_unguarded k fuel)]
      simp only [ih]

theorem evalUnguarded_eq_replies (k : Nat) (d : Derivation α) (g : Guards) :
    c.evalUnguarded k d g = (d.outcome (c.replies (Guards.deepen (some k)) k g), g) := by
  rw [evalUnguarded, Derivation.run_eq_outcome (c.restores_unguarded k k)]
  simp only [unguarded_eq_replies]

theorem evalUnguarded_stop (k : Nat) (fault : Fault) (g : Guards) :
    c.evalUnguarded k (stop fault : Derivation α) g = (.error fault, g) := rfl

end

variable {c : Context} {α : Type} {d : Derivation α} {g : Guards} {r : Request} {ty : Ty}
  {k m n fuel : Nat}

theorem derived_mono (h : c.derived m r = .ok ty) (hle : m ≤ n) : c.derived n r = .ok ty := by
  induction m generalizing n r ty with
  | zero => cases h
  | succ m ih =>
    obtain ⟨n, rfl⟩ : ∃ x, n = x + 1 := ⟨n - 1, by omega⟩
    exact outcome_ok_of_asks (fun r' ty' _ hr' => ih hr' (by omega)) h

/-- Work on a declaration is the same whichever way it is asked for, except that what is no item is
unknown as one. -/
theorem rule_eq_entity_or {decl : NodeId} (hd : r.decl? = some decl) :
    c.rule r = c.rule (.entity decl) ∨ c.rule r = .done .unknown := by
  cases r with
  | expr _ | typeExpr _ => cases hd
  | entity id =>
    cases hd
    exact .inl rfl
  | item id =>
    cases hd
    cases hk : c.tree.kind? decl with
    | none =>
      have hstop : c.kind decl = .stop (.outside c.tree.size decl.index) := by rw [kind, hk]
      exact .inl (by rw [rule, rule, itemRule, entityRule, hstop]; rfl)
    | some k =>
      cases k with
      | item i => exact .inl (itemRule_eq hk)
      | _ => exact .inr (by rw [rule, itemRule, kind_eq_done hk]; rfl)

theorem exists_lowest_derived (h : c.derived m r = .ok ty) :
    ∃ n, n < m ∧ c.derived (n + 1) r = .ok ty ∧ ∀ ty', c.derived n r ≠ .ok ty' := by
  induction m with
  | zero => cases h
  | succ m ih =>
    by_cases hm : ∃ ty', c.derived m r = .ok ty'
    · obtain ⟨ty', hty'⟩ := hm
      cases (derived_mono hty' (Nat.le_succ m)).symm.trans h
      obtain ⟨n, hn, hlow⟩ := ih hty'
      exact ⟨n, by omega, hlow⟩
    · exact ⟨m, Nat.lt_succ_self m, h, fun ty' hty' => hm ⟨ty', hty'⟩⟩

theorem replies_deepen_of_derived (h : c.derived n r = .ok ty) (hk : n + g.depth ≤ k)
    (hf : n ≤ fuel) : c.replies (Guards.deepen (some k)) fuel g r = .ok ty := by
  induction n generalizing fuel g r ty with
  | zero => cases h
  | succ n ih =>
    obtain ⟨fuel, rfl⟩ : ∃ x, fuel = x + 1 := ⟨fuel - 1, by omega⟩
    rw [replies_of_admitted (Guards.deepen_of_lt (by omega))]
    refine outcome_ok_of_asks (fun r' ty' _ hr' => ?_) h
    exact ih hr' (by simp only; omega) (by omega)

theorem uncut_of_derived {a : α} (h : d.outcome (c.derived k) = .ok a) : c.Uncut k d := by
  intro g r hu
  have hheight : g.depth < k ∧ ∃ ty, c.derived (k - g.depth) r = .ok ty := by
    induction hu with
    | @outer r ha =>
      obtain ⟨ty, hty⟩ := ha.reply_ok h fun r ty hr =>
        replies_deepen_of_derived hr (Nat.le_refl k) (Nat.le_refl k)
      cases k with
      | zero => cases hty
      | succ k => exact ⟨Nat.succ_pos k, ty, hty⟩
    | @inner g g' r r' _ he ha ih =>
      obtain ⟨hlt, ty, hty⟩ := ih
      cases Guards.deepen_eq_some he
      obtain ⟨n, hn⟩ : ∃ n, k - g.depth = n + 1 := ⟨k - g.depth - 1, by omega⟩
      rw [hn] at hty
      obtain ⟨ty', hty'⟩ := ha.reply_ok hty fun r ty hr =>
        replies_deepen_of_derived hr (by simp only; omega) (by omega)
      cases n with
      | zero => cases hty'
      | succ n =>
        refine ⟨by simp only; omega, ty', ?_⟩
        rw [show k - (g.depth + 1) = n + 1 by omega]
        exact hty'
  exact hheight.1

variable (ht : c.tree.Ordered) (hR : c.resolver.Within c.tree)
include ht hR

theorem formed_of_derived (hr : r.Proper c.tree) (h : c.derived m r = .ok ty) :
    ty.Formed c.tree := by
  induction m generalizing r ty with
  | zero => cases h
  | succ m ih => exact (meets_rule ht hR hr).of_outcome (fun r' ty' hr' he => ih hr'.1 he) h

theorem replies_deepen_ok (fuel : Nat) (g : Guards) (hr : r.Proper c.tree)
    (hk : k ≤ fuel + g.depth) :
    ∃ ty, c.replies (Guards.deepen (some k)) fuel g r = .ok ty := by
  induction fuel generalizing g r with
  | zero =>
    have hp : g.deepen (some k) r = none := by
      rw [Guards.deepen, if_pos (by simpa using hk)]
    exact ⟨.unknown, replies_of_refused hp 0⟩
  | succ fuel ih =>
    cases hp : g.deepen (some k) r with
    | none => exact ⟨.unknown, replies_of_refused hp _⟩
    | some g' =>
      rw [replies_of_admitted hp]
      obtain ⟨ty, hty, -⟩ := (meets_rule ht hR hr).outcome fun r' hr' => by
        obtain ⟨ty, hty⟩ := ih g' hr'.1 (by rw [Guards.deepen_eq_some hp]; simp only; omega)
        exact ⟨ty, hty, formed_of_replies ht hR hr'.1 hty⟩
      exact ⟨ty, hty⟩

theorem replies_deepen_step (hr : r.Proper c.tree) (hk : g.depth < k) :
    c.replies (Guards.deepen (some k)) k g r =
      (c.rule r).outcome
        (c.replies (Guards.deepen (some k)) k { g with depth := g.depth + 1 }) := by
  obtain ⟨ty, hty⟩ := replies_deepen_ok ht hR k g hr (Nat.le_add_right k g.depth)
  exact replies_unfold (Guards.deepen_of_lt hk) (by simp [hty])

theorem derived_of_underway {Q : α → Prop}
    (hd : d.Meets (Request.Proper c.tree) (Ty.Formed c.tree) Q) (hcut : c.Uncut k d)
    (h : c.Underway (Guards.deepen (some k)) k d g r) :
    c.replies (Guards.deepen (some k)) k g r = c.derived (k - g.depth) r := by
  have hlt := hcut g r h
  induction hn : k - g.depth generalizing g r with
  | zero => omega
  | succ n ih =>
    rw [replies_deepen_step ht hR (h.proper ht hR hd) hlt, derived]
    apply outcome_congr
    intro r' hr'
    have hinner := h.inner (Guards.deepen_of_lt hlt) hr'
    exact ih hinner (hcut _ r' hinner) (by simp only; omega)

theorem outcome_derived_of_uncut {Q : α → Prop}
    (hd : d.Meets (Request.Proper c.tree) (Ty.Formed c.tree) Q) (hcut : c.Uncut k d) :
    d.outcome (c.replies (Guards.deepen (some k)) k .idle) = d.outcome (c.derived k) :=
  outcome_congr fun _ hr => derived_of_underway ht hR hd hcut (.outer hr)

/-- The depth `k` cuts nothing off if and only if the rules lead to an answer by a derivation that
is no higher. -/
theorem uncut_iff {Q : α → Prop} (hd : d.Meets (Request.Proper c.tree) (Ty.Formed c.tree) Q) :
    c.Uncut k d ↔ ∃ a, d.outcome (c.derived k) = .ok a := by
  constructor
  · intro hcut
    obtain ⟨a, ha, -⟩ := hd.outcome fun r hr => by
      obtain ⟨ty, hty⟩ := replies_deepen_ok ht hR k .idle hr (Nat.le_refl k)
      exact ⟨ty, hty, formed_of_replies ht hR hr hty⟩
    exact ⟨a, by rw [← outcome_derived_of_uncut ht hR hd hcut, ha]⟩
  · rintro ⟨a, ha⟩
    exact uncut_of_derived ha

end TypeDerivation.Context
