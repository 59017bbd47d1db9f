import Mathlib.Data.List.Forall2
import TypeDerivation.Engine.Guards

/-!
Derivations under fixed replies. The guards are the same before and after every request, so what a
derivation comes to depends on the replies alone.
-/

namespace TypeDerivation

abbrev Replies := Request → Except Fault Ty

namespace Derivation

variable {α β : Type}

def outcome (reply : Replies) : Derivation α → Except Fault α
  | done a => .ok a
  | stop fault => .error fault
  | ask r next =>
    match reply r with
    | .ok ty => (next ty).outcome reply
    | .error fault => .error fault

/-- `d.Asks reply r`: the request `r` comes up while `d` is worked out. -/
inductive Asks (reply : Replies) : Derivation α → Request → Prop where
  | here (r : Request) (next : Ty → Derivation α) : Asks reply (ask r next) r
  | later {r r' : Request} {ty : Ty} {next : Ty → Derivation α} :
    reply r = .ok ty → Asks reply (next ty) r' → Asks reply (ask r next) r'

/-- `d.Meets P W Q`: whatever types with `W` come back, `d` asks requests with `P` only, never
stops, and its answer has `Q`. -/
inductive Meets (P : Request → Prop) (W : Ty → Prop) (Q : α → Prop) : Derivation α → Prop where
  | done {a : α} : Q a → Meets P W Q (done a)
  | ask {r : Request} {next : Ty → Derivation α} :
    P r → (∀ ty, W ty → Meets P W Q (next ty)) → Meets P W Q (ask r next)

variable {reply reply' : Replies} {d : Derivation α} {f : α → Derivation β}
  {P : Request → Prop} {W : Ty → Prop} {Q : α → Prop}

theorem run_eq_outcome {answer : Request → Guarded Ty} (h : ∀ r, (answer r).Restores)
    (d : Derivation α) (g : Guards) :
    d.run answer g = (d.outcome fun r => (answer r g).1, g) := by
  induction d with
  | done a => rfl
  | stop fault => rfl
  | ask r next ih =>
    have hg := h r g
    rw [run, outcome]
    split
    · rename_i ty g' he
      rw [he] at hg
      subst hg
      simp only [he, ih]
    · rename_i fault g' he
      rw [he] at hg
      subst hg
      simp only [he]

theorem outcome_request (r : Request) : (request r).outcome reply = reply r := by
  rw [request, outcome]
  cases reply r <;> rfl

theorem outcome_denotedOr (absent : Ty) (o : Option NodeId) :
    (denotedOr absent o).outcome reply = o.elim (.ok absent) fun x => reply (.typeExpr x) := by
  cases o with
  | none => rfl
  | some x => exact outcome_request _

theorem outcome_bind (d : Derivation α) (f : α → Derivation β) :
    (d >>= f).outcome reply = d.outcome reply >>= fun a => (f a).outcome reply := by
  change (d.bind f).outcome reply = _
  induction d with
  | done a => rfl
  | stop fault => rfl
  | ask r next ih =>
    rw [bind, outcome, outcome]
    cases reply r with
    | ok ty => exact ih ty
    | error fault => rfl

theorem outcome_bind_ok_iff {b : β} :
    (d >>= f).outcome reply = .ok b ↔
      ∃ a, d.outcome reply = .ok a ∧ (f a).outcome reply = .ok b := by
  rw [outcome_bind]
  cases d.outcome reply with
  | ok a => simp [Bind.bind, Except.bind]
  | error fault => simp [Bind.bind, Except.bind]

theorem outcome_map_ok_iff {f : α → β} {b : β} :
    (f <$> d).outcome reply = .ok b ↔ ∃ a, d.outcome reply = .ok a ∧ f a = b := by
  have hpure (a : α) : (pure (f a) : Derivation β).outcome reply = .ok b ↔ f a = b :=
    ⟨Except.ok.inj, congrArg Except.ok⟩
  rw [← bind_pure_comp, outcome_bind_ok_iff]
  simp only [hpure]

theorem outcome_forEach_ok_iff {f : α → Derivation β} {as : List α} {bs : List β} :
    (forEach f as).outcome reply = .ok bs ↔
      List.Forall₂ (fun a b => (f a).outcome reply = .ok b) as bs := by
  induction as generalizing bs with
  | nil =>
    rw [List.forall₂_nil_left_iff]
    constructor
    · rintro ⟨⟩
      rfl
    · rintro rfl
      rfl
  | cons a rest ih =>
    simp only [forEach, outcome_bind_ok_iff, List.forall₂_cons_left_iff, ih]
    constructor
    · rintro ⟨b, hb, bs, hbs, ⟨⟩⟩
      exact ⟨b, bs, hb, hbs, rfl⟩
    · rintro ⟨b, bs, hb, hbs, rfl⟩
      exact ⟨b, hb, bs, hbs, rfl⟩

theorem outcome_congr (h : ∀ r, d.Asks reply r → reply r = reply' r) :
    d.outcome reply = d.outcome reply' := by
  induction d with
  | done a => rfl
  | stop fault => rfl
  | ask r next ih =>
    have hr := h r (.here r next)
    rw [outcome, outcome, ← hr]
    cases he : reply r with
    | ok ty => exact ih ty fun r' ha => h r' (.later he ha)
    | error fault => rfl

theorem outcome_ok_of_asks {a : α}
    (h : ∀ r ty, d.Asks reply r → reply r = .ok ty → reply' r = .ok ty)
    (ha : d.outcome reply = .ok a) : d.outcome reply' = .ok a := by
  induction d with
  | done x => exact ha
  | stop fault => cases ha
  | ask r next ih =>
    rw [outcome] at ha
    cases he : reply r with
    | ok ty =>
      rw [he] at ha
      rw [outcome, h r ty (.here r next) he]
      exact ih ty (fun r' ty' hr' => h r' ty' (.later he hr')) ha
    | error fault =>
      rw [he] at ha
      cases ha

/-- Replies that differ only where there was none for want of fuel lead to the same outcome. -/
theorem outcome_stable (h : d.outcome reply ≠ .error .exhausted)
    (hr : ∀ r, reply r ≠ .error .exhausted → reply' r = reply r) :
    d.outcome reply' = d.outcome reply := by
  induction d with
  | done a => rfl
  | stop fault => rfl
  | ask r next ih =>
    have hne : reply r ≠ .error .exhausted := fun he => h (by rw [outcome, he])
    rw [outcome, outcome, hr r hne]
    rw [outcome] at h
    cases he : reply r with
    | ok ty =>
      rw [he] at h
      exact ih ty h
    | error fault => rfl

theorem Asks.reply_ok {r : Request} {a : α} (ha : d.Asks reply' r) (hd : d.outcome reply = .ok a)
    (h : ∀ r ty, reply r = .ok ty → reply' r = .ok ty) : ∃ ty, reply r = .ok ty := by
  induction ha with
  | here r next =>
    rw [outcome] at hd
    cases he : reply r with
    | ok ty => exact ⟨ty, rfl⟩
    | error fault =>
      rw [he] at hd
      cases hd
  | @later r r' ty next hr' _ ih =>
    rw [outcome] at hd
    cases he : reply r with
    | ok ty' =>
      rw [he] at hd
      cases (h r ty' he).symm.trans hr'
      exact ih hd
    | error fault =>
      rw [he] at hd
      cases hd

namespace Meets

theorem bind {R : α → Prop} {Q : β → Prop} (h : d.Meets P W R) (hf : ∀ a, R a → (f a).Meets P W Q) :
    (d >>= f).Meets P W Q := by
  change (d.bind f).Meets P W Q
  induction h with
  | done hr => exact hf _ hr
  | ask hp _ ih => exact .ask hp ih

theorem map {R : α → Prop} {Q : β → Prop} {f : α → β} (h : d.Meets P W R)
    (hf : ∀ a, R a → Q (f a)) : (f <$> d).Meets P W Q := by
  rw [← bind_pure_comp]
  exact h.bind fun a ha => .done (hf a ha)

theorem request {r : Request} (h : P r) : (Derivation.request r).Meets P W W :=
  .ask h fun _ hty => .done hty

theorem forEach {f : α → Derivation β} {R : β → Prop} {as : List α}
    (h : ∀ a ∈ as, (f a).Meets P W R) :
    (forEach f as).Meets P W fun bs => bs.length = as.length ∧ ∀ b ∈ bs, R b := by
  induction as with
  | nil => exact .done ⟨rfl, by simp⟩
  | cons a rest ih =>
    apply (h a (by simp)).bind
    intro b hb
    refine (ih fun a ha => h a (List.mem_cons_of_mem _ ha)).bind fun bs hbs => .done ?_
    refine ⟨by simp [hbs.1], ?_⟩
    intro x hx
    rcases List.mem_cons.mp hx with rfl | hx
    · exact hb
    · exact hbs.2 x hx

theorem outcome (h : d.Meets P W Q) (hr : ∀ r, P r → ∃ ty, reply r = .ok ty ∧ W ty) :
    ∃ a, d.outcome reply = .ok a ∧ Q a := by
  induction h with
  | done hq => exact ⟨_, rfl, hq⟩
  | @ask r next hp _ ih =>
    obtain ⟨ty, he, hw⟩ := hr r hp
    rw [Derivation.outcome, he]
    exact ih ty hw

theorem of_outcome {a : α} (h : d.Meets P W Q)
    (hr : ∀ r ty, P r → reply r = .ok ty → W ty) (ha : d.outcome reply = .ok a) : Q a := by
  induction h with
  | done hq =>
    cases ha
    exact hq
  | @ask r next hp _ ih =>
    rw [Derivation.outcome] at ha
    cases he : reply r with
    | ok ty =>
      rw [he] at ha
      exact ih ty (hr r ty hp he) ha
    | error fault =>
      rw [he] at ha
      cases ha

theorem of_asks {r : Request} (h : d.Meets P W Q)
    (hr : ∀ r ty, P r → reply r = .ok ty → W ty) (ha : d.Asks reply r) : P r := by
  induction ha with
  | here r next =>
    cases h with
    | ask hp => exact hp
  | later he _ ih =>
    cases h with
    | ask hp hn => exact ih (hn _ (hr _ _ hp he))

end Meets

end Derivation

end TypeDerivation
