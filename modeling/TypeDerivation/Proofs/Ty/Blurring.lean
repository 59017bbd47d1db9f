import TypeDerivation.Derivation.Pattern

/-!
The order on types in which the unknown type says least. A type is below another one if replacing
parts of the other by the unknown type leads to it.
-/

namespace TypeDerivation

namespace Ty

mutual

/-- `a` is `b` with some of its parts, none or all of it replaced by the unknown type. -/
inductive Blurs : Ty → Ty → Prop where
  | unknown (ty : Ty) : Blurs .unknown ty
  | refl (ty : Ty) : Blurs ty ty
  | tuple {as bs : List Ty} : BlursAll as bs → Blurs (.tuple as) (.tuple bs)
  | ref {a b : Ty} (mutable : Bool) : Blurs a b → Blurs (.ref a mutable) (.ref b mutable)
  | fn {as bs : List Ty} {a b : Ty} : BlursAll as bs → Blurs a b → Blurs (.fn as a) (.fn bs b)

inductive BlursAll : List Ty → List Ty → Prop where
  | nil : BlursAll [] []
  | cons {a b : Ty} {as bs : List Ty} : Blurs a b → BlursAll as bs → BlursAll (a :: as) (b :: bs)

end

variable {a b c : Ty} {as bs cs ds : List Ty}

theorem Blurs.of_unknown (h : Blurs a .unknown) : a = .unknown := by
  cases h with
  | unknown => rfl
  | refl => rfl

theorem Blurs.of_struct {decl : NodeId} (h : Blurs (.struct decl) b) : b = .struct decl := by
  cases h
  rfl

theorem Blurs.of_enum {decl : NodeId} (h : Blurs (.enum decl) b) : b = .enum decl := by
  cases h
  rfl

theorem BlursAll.refl (as : List Ty) : BlursAll as as := by
  induction as with
  | nil => exact .nil
  | cons a as ih => exact .cons (.refl a) ih

theorem Blurs.of_tuple (h : Blurs (.tuple as) b) : ∃ bs, b = .tuple bs ∧ BlursAll as bs := by
  cases h with
  | refl => exact ⟨as, rfl, .refl as⟩
  | tuple h => exact ⟨_, rfl, h⟩

theorem Blurs.of_ref {mutable : Bool} (h : Blurs (.ref a mutable) b) :
    ∃ b', b = .ref b' mutable ∧ Blurs a b' := by
  cases h with
  | refl => exact ⟨a, rfl, .refl a⟩
  | ref _ h => exact ⟨_, rfl, h⟩

theorem Blurs.of_fn (h : Blurs (.fn as a) b) :
    ∃ bs b', b = .fn bs b' ∧ BlursAll as bs ∧ Blurs a b' := by
  cases h with
  | refl => exact ⟨as, a, rfl, .refl as, .refl a⟩
  | fn hs h => exact ⟨_, _, rfl, hs, h⟩

mutual

theorem Blurs.trans : ∀ {a b c : Ty}, Blurs a b → Blurs b c → Blurs a c
  | _, _, c, .unknown _, _ => .unknown c
  | _, _, _, .refl _, h => h
  | _, _, _, .tuple hs, h => by
    obtain ⟨cs, rfl, hs'⟩ := h.of_tuple
    exact .tuple (hs.trans hs')
  | _, _, _, .ref m h₁, h => by
    obtain ⟨c, rfl, h₂⟩ := h.of_ref
    exact .ref m (h₁.trans h₂)
  | _, _, _, .fn hs h₁, h => by
    obtain ⟨cs, c, rfl, hs', h₂⟩ := h.of_fn
    exact .fn (hs.trans hs') (h₁.trans h₂)

theorem BlursAll.trans : ∀ {as bs cs : List Ty}, BlursAll as bs → BlursAll bs cs → BlursAll as cs
  | _, _, _, .nil, h => h
  | _, _, _, .cons h hs, .cons h' hs' => .cons (h.trans h') (hs.trans hs')

end

mutual

theorem Blurs.antisymm : ∀ {a b : Ty}, Blurs a b → Blurs b a → a = b
  | _, _, .unknown _, h => h.of_unknown.symm
  | _, _, .refl _, _ => rfl
  | _, _, .tuple hs, h => by
    obtain ⟨_, ⟨⟩, hs'⟩ := h.of_tuple
    rw [hs.antisymm hs']
  | _, _, .ref m h₁, h => by
    obtain ⟨_, ⟨⟩, h₂⟩ := h.of_ref
    rw [h₁.antisymm h₂]
  | _, _, .fn hs h₁, h => by
    obtain ⟨_, _, ⟨⟩, hs', h₂⟩ := h.of_fn
    rw [hs.antisymm hs', h₁.antisymm h₂]

theorem BlursAll.antisymm : ∀ {as bs : List Ty}, BlursAll as bs → BlursAll bs as → as = bs
  | _, _, .nil, _ => rfl
  | _, _, .cons h hs, .cons h' hs' => by rw [h.antisymm h', hs.antisymm hs']

end

theorem BlursAll.length_eq (h : BlursAll as bs) : as.length = bs.length := by
  induction as generalizing bs with
  | nil =>
    cases h
    rfl
  | cons a as ih =>
    cases h with
    | cons _ hs => simp only [List.length_cons, ih hs]

theorem BlursAll.getElem? {index : Nat} (h : BlursAll as bs) (ha : as[index]? = some a) :
    ∃ b, bs[index]? = some b ∧ Blurs a b := by
  induction as generalizing bs index with
  | nil => simp at ha
  | cons x as ih =>
    cases h with
    | cons hx hs =>
      cases index with
      | zero =>
        cases ha
        exact ⟨_, rfl, hx⟩
      | succ index =>
        obtain ⟨b, hb, hab⟩ := ih hs ha
        exact ⟨b, hb, hab⟩

theorem BlursAll.append (h : BlursAll as bs) (h' : BlursAll cs ds) :
    BlursAll (as ++ cs) (bs ++ ds) := by
  induction as generalizing bs with
  | nil =>
    cases h
    exact h'
  | cons a as ih =>
    cases h with
    | cons hx hs => exact .cons hx (ih hs)

theorem BlursAll.ofElems (h : BlursAll as bs) : Blurs (ofElems as) (ofElems bs) := by
  cases h with
  | nil => exact .refl _
  | cons hx hs => exact .tuple (.cons hx hs)

theorem Blurs.ret (h : Blurs a b) : Blurs (a.ret?.getD .unknown) (b.ret?.getD .unknown) := by
  cases h with
  | fn _ h => exact h
  | refl => exact .refl _
  | unknown | tuple _ | ref _ _ => exact .unknown _

end Ty

namespace Place

open Ty

structure Blurs (s s' : Place) : Prop where
  mode : s.mode = s'.mode
  ty : s.ty.Blurs s'.ty

/-- Where the first way down leads to a place, so does the second, to one that says no less. -/
def Ahead (o o' : Option Place) : Prop := ∀ s ∈ o, ∃ s' ∈ o', s.Blurs s'

variable {s s' : Place} {o : Option Place}

theorem ahead_none : Ahead none o := by simp [Ahead]

theorem Blurs.ahead (h : s.Blurs s') : Ahead (some s) (some s') := by
  rintro _ ⟨⟩
  exact ⟨s', rfl, h⟩

theorem lookThrough_blurs : ∀ {a b : Ty} (mode : Option Bool), a.Blurs b →
    (lookThrough a mode).ty = .unknown ∨ (lookThrough a mode).Blurs (lookThrough b mode)
  | .ref a m, _, mode, h => by
    obtain ⟨b, rfl, hab⟩ := h.of_ref
    exact lookThrough_blurs (some (mode.elim m (· && m))) hab
  | .unknown, _, _, _ => .inl rfl
  | .tuple _, _, _, h => by
    obtain ⟨bs, rfl, hs⟩ := h.of_tuple
    exact .inr ⟨rfl, .tuple hs⟩
  | .fn _ _, _, _, h => by
    obtain ⟨bs, b, rfl, hs, h⟩ := h.of_fn
    exact .inr ⟨rfl, .fn hs h⟩
  | .unit, _, _, h | .bool, _, _, h | .char, _, _, h | .str, _, _, h | .int _, _, _, h
  | .float _, _, _, h | .struct _, _, _, h | .enum _, _, _, h | .trait _, _, _, h
  | .typeParam _, _, _, h => by
    cases h
    exact .inr ⟨rfl, .refl _⟩

theorem Blurs.opened (h : s.Blurs s') : s.opened.ty = .unknown ∨ s.opened.Blurs s'.opened := by
  rw [Place.opened, Place.opened, ← h.mode]
  exact lookThrough_blurs s.mode h.ty

theorem Blurs.referred (h : s.Blurs s') : Ahead s.referred? s'.referred? := by
  intro inner hs
  rw [referred?] at hs
  split at hs
  · rename_i a m he
    cases hs
    obtain ⟨b, hb, hab⟩ := (he ▸ h.ty).of_ref
    exact ⟨⟨b, none⟩, by rw [referred?, hb]; rfl, rfl, hab⟩
  · cases hs

theorem Blurs.bound (h : s.Blurs s') (byRef mutable : Bool) :
    (s.bound byRef mutable).Blurs (s'.bound byRef mutable) := by
  rw [Place.bound, Place.bound, ← h.mode]
  split
  · exact .ref _ h.ty
  · cases s.mode with
    | none => exact h.ty
    | some m => exact .ref _ h.ty

end Place

end TypeDerivation
