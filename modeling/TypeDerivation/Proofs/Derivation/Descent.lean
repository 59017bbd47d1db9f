import Mathlib.Data.List.Nodup
import TypeDerivation.Proofs.Derivation.Reading

/-!
The way down to a binding. It is found from below, one pattern after the other, and comes to what
a reading from the top comes to.
-/

namespace TypeDerivation

namespace View

def place (v : View) : Place := ⟨v.ty, refMode v.seen⟩

theorem refMode_append (seen : List Bool) (m : Bool) :
    refMode (seen ++ [m]) = some ((refMode seen).elim m (· && m)) := by
  cases seen with
  | nil => simp [refMode]
  | cons x rest => simp [refMode, Bool.and_assoc]

theorem lookThrough_eq : ∀ (ty : Ty) (seen : List Bool),
    Place.lookThrough ty (refMode seen) = ⟨ty.referent, refMode (seen ++ ty.layers)⟩
  | .ref inner m, seen => by
    rw [Place.lookThrough, ← refMode_append, lookThrough_eq inner, Ty.layers, Ty.referent,
      List.append_assoc, List.singleton_append]
  | .unknown, _ | .unit, _ | .bool, _ | .char, _ | .str, _ | .int _, _ | .float _, _ | .tuple _, _
  | .struct _, _ | .enum _, _ | .trait _, _ | .fn _ _, _ | .typeParam _, _ => by
    simp [Place.lookThrough, Ty.referent, Ty.layers]

theorem place_opened (v : View) : v.place.opened = v.opened.place := lookThrough_eq v.ty v.seen

theorem place_bound (v : View) (byRef mutable : Bool) :
    v.place.bound byRef mutable = v.bound byRef mutable := by
  cases byRef <;> rfl

end View

namespace Context

open TypeDerivation.Derivation

variable {c : Context} {reply : Replies} {pat child top id : NodeId} {v : View} {ty : Ty}
  {fields : List NodeId}

theorem kind_bind {α : Type} {kind : NodeKind} (hk : c.tree.kind? id = some kind)
    (f : NodeKind → Derivation α) : c.kind id >>= f = f kind := by
  rw [kind_eq_done hk]
  rfl

theorem outcome_kind_eq_ok_iff {kind : NodeKind} :
    (c.kind id).outcome reply = .ok kind ↔ c.tree.kind? id = some kind := by
  rw [Context.kind]
  split
  · rename_i k hk
    simp [hk, outcome]
  · rename_i hk
    simp [hk, outcome]

theorem fieldsFor_eq_some_iff (ha : c.tree.Agreeing) :
    (c.fieldsFor pat ty).outcome reply = .ok (some fields) ↔ c.Names pat ty fields := by
  constructor
  · intro h
    rw [fieldsFor] at h
    split at h
    · cases h
    · rename_i decl hd
      obtain ⟨kind, hk, h⟩ := outcome_bind_ok_iff.mp h
      rw [outcome_kind_eq_ok_iff] at hk
      split at h
      · obtain ⟨rfl, hfields⟩ := Option.ite_none_right_eq_some.mp (Except.ok.inj h)
        cases hfields
        exact .struct hd hk
      · obtain ⟨hv, hfields⟩ := Option.ite_none_right_eq_some.mp (Except.ok.inj h)
        cases hfields
        obtain ⟨body, hbody, hvariant, henum, hb⟩ := (SyntaxTree.variantEnum?_eq_some_iff ha).mp hv
        exact .variant hd hk hbody hvariant henum hb
      · cases h
  · intro h
    cases h with
    | struct hd hk =>
      simp only [fieldsFor, hd, kind_bind hk, if_true]
      rfl
    | variant hd hk hbody hv henum hb =>
      have hvariant := (SyntaxTree.variantEnum?_eq_some_iff ha).mpr ⟨_, hbody, hv, henum, hb⟩
      simp only [fieldsFor, hd, kind_bind hk, hvariant, if_true]
      rfl

theorem outcome_fieldNamed (name : Name) (h : ∀ x ∈ fields, x.index < c.tree.size) :
    (c.fieldNamed name fields).outcome reply =
      .ok (fields.find? (c.tree.holds (·.isFieldNamed name))) := by
  induction fields with
  | nil => rfl
  | cons x rest ih =>
    obtain ⟨kind, hk⟩ := SyntaxTree.kind?_of_lt (h x List.mem_cons_self)
    have hrest := ih fun y hy => h y (List.mem_cons_of_mem _ hy)
    have hx (p : NodeKind → Bool) : c.tree.holds p x = p kind := by
      rw [SyntaxTree.holds, hk]
      rfl
    rw [fieldNamed, kind_bind hk, List.find?_cons, hx]
    split
    · rename_i m ty
      by_cases hm : m = name
      · simp only [hm, NodeKind.isFieldNamed, decide_true, if_true]
        rfl
      · simp only [hm, NodeKind.isFieldNamed, decide_false, if_false, hrest]
    · rename_i hother
      rw [NodeKind.isFieldNamed, hrest]
      exact hother

theorem outcome_fieldTypeExpr {kind : NodeKind} (hk : c.tree.kind? id = some kind) :
    (c.fieldTypeExpr id).outcome reply = .ok kind.writtenType? := by
  rw [fieldTypeExpr, kind_bind hk]
  cases kind with
  | decl d => cases d <;> rfl
  | _ => rfl

theorem enterField_eq_some_iff {s s' : Place} {o : Option NodeId} :
    (c.enterField s o).outcome reply = .ok (some s') ↔
      ∃ field ∈ o, ∃ ty, c.Declares reply field ty ∧ s' = { s with ty := ty } := by
  cases o with
  | none =>
    constructor
    · intro h
      cases h
    · rintro ⟨field, hf, -⟩
      cases hf
  | some field =>
    rw [enterField, outcome_bind_ok_iff]
    constructor
    · rintro ⟨written, hw, h⟩
      cases written with
      | none => cases h
      | some written =>
        obtain ⟨ty, hty, h⟩ := outcome_bind_ok_iff.mp h
        cases h
        obtain ⟨kind, hk, hkind⟩ := outcome_bind_ok_iff.mp hw
        rw [outcome_kind_eq_ok_iff] at hk
        rw [outcome_fieldTypeExpr hk] at hw
        rw [denotedType, outcome_request] at hty
        exact ⟨field, rfl, ty, ⟨kind, written, hk, Except.ok.inj hw, hty⟩, rfl⟩
    · rintro ⟨_, ⟨⟩, ty, ⟨kind, written, hk, hw, hty⟩, rfl⟩
      refine ⟨some written, by rw [outcome_fieldTypeExpr hk, hw], ?_⟩
      refine outcome_bind_ok_iff.mpr ⟨ty, ?_, rfl⟩
      rw [denotedType, outcome_request, hty]

theorem find?_eq_some_of_mem {entries : List FieldPat} (hn : (entries.map (·.pat)).Nodup)
    {entry : FieldPat} (h : entry ∈ entries) :
    entries.find? (·.pat = entry.pat) = some entry := by
  induction entries with
  | nil => cases h
  | cons x rest ih =>
    obtain ⟨hx, hrest⟩ := List.nodup_cons.mp hn
    rcases List.mem_cons.mp h with rfl | h
    · exact List.find?_cons_of_pos (by simp)
    · have hne : x.pat ≠ entry.pat := fun he => hx (List.mem_map.mpr ⟨entry, h, he.symm⟩)
      rw [List.find?_cons_of_neg (by simpa using hne)]
      exact ih hrest h

theorem findIdx?_eq_some_iff {elems : List NodeId} (hn : elems.Nodup) {i : Nat} :
    elems.findIdx? (· = child) = some i ↔ elems[i]? = some child := by
  rw [List.findIdx?_eq_some_iff_getElem, List.getElem?_eq_some_iff]
  constructor
  · rintro ⟨hlt, he, -⟩
    exact ⟨hlt, by simpa using he⟩
  · rintro ⟨hlt, rfl⟩
    refine ⟨hlt, by simp, ?_⟩
    intro j hj
    have hne : elems[j] ≠ elems[i] := fun he => Nat.ne_of_lt hj (hn.getElem_inj_iff.mp he)
    simpa using hne

theorem enterNamed_eq_some_iff (ht : c.tree.Ordered) (ha : c.tree.Agreeing) {path : SymbolPath}
    {entries : List FieldPat} (hk : c.tree.kind? pat = some (.pat (.struct path entries)))
    (hn : (entries.map (·.pat)).Nodup) {s s' : Place} :
    (c.enterNamed pat child entries s).outcome reply = .ok (some s') ↔
      ∃ fields field ty, c.Names pat s.ty fields ∧ c.StandsFor pat child fields field ∧
        c.Declares reply field ty ∧ s' = { s with ty := ty } := by
  constructor
  · intro h
    rw [enterNamed] at h
    split at h
    · cases h
    · rename_i entry hentry
      obtain ⟨o, ho, h⟩ := outcome_bind_ok_iff.mp h
      cases o with
      | none => cases h
      | some fields =>
        have hnames := (fieldsFor_eq_some_iff ha).mp ho
        obtain ⟨o, hfield, h⟩ := outcome_bind_ok_iff.mp h
        rw [outcome_fieldNamed _ (hnames.lt ht)] at hfield
        obtain ⟨field, rfl, ty, hty, rfl⟩ := enterField_eq_some_iff.mp h
        have hchild : entry.pat = child := by simpa using List.find?_some hentry
        have hmem : ⟨entry.name, child⟩ ∈ entries := hchild ▸ List.mem_of_find?_eq_some hentry
        exact ⟨fields, field, ty, hnames, .named hk hmem (Except.ok.inj hfield), hty, rfl⟩
  · rintro ⟨fields, field, ty, hnames, hstands, hty, rfl⟩
    cases hstands with
    | positional hk' => cases hk.symm.trans hk'
    | named hk' hmem hfield =>
      cases hk.symm.trans hk'
      rw [enterNamed, find?_eq_some_of_mem hn hmem]
      refine outcome_bind_ok_iff.mpr ⟨_, (fieldsFor_eq_some_iff ha).mpr hnames, ?_⟩
      refine outcome_bind_ok_iff.mpr ⟨_, outcome_fieldNamed _ (hnames.lt ht), ?_⟩
      exact enterField_eq_some_iff.mpr ⟨field, hfield, ty, hty, rfl⟩

theorem enterPositional_eq_some_iff (ha : c.tree.Agreeing) {path : SymbolPath}
    {elems : List NodeId} (hk : c.tree.kind? pat = some (.pat (.tupleStruct path elems)))
    (hn : elems.Nodup) {s s' : Place} :
    (c.enterPositional pat child elems s).outcome reply = .ok (some s') ↔
      ∃ fields field ty, c.Names pat s.ty fields ∧ c.StandsFor pat child fields field ∧
        c.Declares reply field ty ∧ s' = { s with ty := ty } := by
  constructor
  · intro h
    rw [enterPositional] at h
    split at h
    · cases h
    · rename_i i hi
      obtain ⟨o, ho, h⟩ := outcome_bind_ok_iff.mp h
      cases o with
      | none => cases h
      | some fields =>
        obtain ⟨field, hfield, ty, hty, rfl⟩ := enterField_eq_some_iff.mp h
        exact ⟨fields, field, ty, (fieldsFor_eq_some_iff ha).mp ho,
          .positional hk ((findIdx?_eq_some_iff hn).mp hi) hfield, hty, rfl⟩
  · rintro ⟨fields, field, ty, hnames, hstands, hty, rfl⟩
    cases hstands with
    | named hk' => cases hk.symm.trans hk'
    | positional hk' hi hfield =>
      cases hk.symm.trans hk'
      rw [enterPositional, (findIdx?_eq_some_iff hn).mpr hi]
      refine outcome_bind_ok_iff.mpr ⟨_, (fieldsFor_eq_some_iff ha).mpr hnames, ?_⟩
      exact enterField_eq_some_iff.mpr ⟨field, hfield, ty, hty, rfl⟩

theorem enterEntry_eq_some_iff {s s' : Place} {arity i : Nat} :
    (enterEntry s arity i).outcome reply = .ok (some s') ↔
      ∃ tys ty, s.ty = .tuple tys ∧ tys.length = arity ∧ tys[i]? = some ty ∧
        s' = { s with ty := ty } := by
  constructor
  · intro h
    rw [enterEntry] at h
    split at h
    · rename_i tys htys
      split at h
      · rename_i hlen
        split at h
        · rename_i ty hty
          cases h
          exact ⟨tys, ty, htys, hlen, hty, rfl⟩
        · cases h
      · cases h
    · cases h
  · rintro ⟨tys, ty, htys, hlen, hty, rfl⟩
    simp only [enterEntry, htys, hlen, if_true, hty]
    rfl

theorem referred?_eq_some_iff {s' : Place} :
    v.place.referred? = some s' ↔
      ∃ inner m, v = ⟨.ref inner m, v.seen⟩ ∧ s' = (⟨inner, []⟩ : View).place := by
  obtain ⟨ty, seen⟩ := v
  cases ty with
  | ref inner m =>
    constructor
    · rintro ⟨⟩
      exact ⟨inner, m, rfl, rfl⟩
    · rintro ⟨_, _, ⟨⟩, rfl⟩
      rfl
  | _ => simp [View.place, Place.referred?]

theorem descend_eq_some_iff (ht : c.tree.Ordered) (ha : c.tree.Agreeing)
    (hn : (c.tree.children pat).Nodup) {s : Place} :
    (c.descend pat child v.place).outcome reply = .ok (some s) ↔
      ∃ v', c.Enters reply pat v child v' ∧ s = v'.place := by
  -- a part that is listed only once is found in the place where it is listed
  have hnodup {kind : NodeKind} (hk : c.tree.kind? pat = some kind) : kind.children.Nodup := by
    rwa [SyntaxTree.children, hk] at hn
  constructor
  · intro h
    rw [descend, View.place_opened] at h
    obtain ⟨kind, hk, h⟩ := outcome_bind_ok_iff.mp h
    rw [outcome_kind_eq_ok_iff] at hk
    split at h
    · obtain ⟨rfl, hs⟩ := Option.ite_none_right_eq_some.mp (Except.ok.inj h)
      cases hs
      exact ⟨v, .sub hk, rfl⟩
    · obtain ⟨rfl, hs⟩ := Option.ite_none_right_eq_some.mp (Except.ok.inj h)
      obtain ⟨inner, m, hv, rfl⟩ := referred?_eq_some_iff.mp hs
      exact ⟨⟨inner, []⟩, hv ▸ .ref hk, rfl⟩
    · split at h
      · cases h
      · rename_i i hi
        obtain ⟨tys, ty, htys, hlen, hty, rfl⟩ := enterEntry_eq_some_iff.mp h
        exact ⟨{ v.opened with ty := ty },
          .tuple hk htys hlen ((findIdx?_eq_some_iff (hnodup hk)).mp hi) hty, rfl⟩
    · obtain ⟨fields, field, ty, hnames, hstands, hty, rfl⟩ :=
        (enterNamed_eq_some_iff ht ha hk (hnodup hk)).mp h
      exact ⟨{ v.opened with ty := ty }, .field hnames hstands hty, rfl⟩
    · obtain ⟨fields, field, ty, hnames, hstands, hty, rfl⟩ :=
        (enterPositional_eq_some_iff ha hk (hnodup hk)).mp h
      exact ⟨{ v.opened with ty := ty }, .field hnames hstands hty, rfl⟩
    · cases h
  · rintro ⟨v', h, rfl⟩
    cases h with
    | sub hk | ref hk =>
      rw [descend, kind_bind hk]
      dsimp only
      rw [if_pos rfl]
      rfl
    | @tuple _ _ elems tys i ty hk htys hlen hi hty =>
      have hindex : elems.findIdx? (· = child) = some i :=
        (findIdx?_eq_some_iff (hnodup hk)).mpr hi
      rw [descend, kind_bind hk, View.place_opened]
      dsimp only
      rw [hindex]
      exact enterEntry_eq_some_iff.mpr ⟨tys, ty, htys, hlen, hty, rfl⟩
    | field hnames hstands hty =>
      cases id hstands with
      | named hk =>
        rw [descend, kind_bind hk, View.place_opened]
        exact (enterNamed_eq_some_iff ht ha hk (hnodup hk)).mpr
          ⟨_, _, _, hnames, hstands, hty, rfl⟩
      | positional hk =>
        rw [descend, kind_bind hk, View.place_opened]
        exact (enterPositional_eq_some_iff ha hk (hnodup hk)).mpr
          ⟨_, _, _, hnames, hstands, hty, rfl⟩

theorem descendAll_cons_cons_eq_some_iff {rest : List NodeId} {s s' : Place} :
    (c.descendAll (pat :: child :: rest) s).outcome reply = .ok (some s') ↔
      ∃ s₁, (c.descend pat child s).outcome reply = .ok (some s₁) ∧
        (c.descendAll (child :: rest) s₁).outcome reply = .ok (some s') := by
  rw [descendAll, outcome_bind_ok_iff]
  constructor
  · rintro ⟨o, ho, h⟩
    cases o with
    | none => cases h
    | some s₁ => exact ⟨s₁, ho, h⟩
  · rintro ⟨s₁, ho, h⟩
    exact ⟨some s₁, ho, h⟩

theorem descendAll_concat_eq_some_iff {chain : List NodeId} (hlast : chain.getLast? = some pat)
    {s s' : Place} :
    (c.descendAll (chain ++ [child]) s).outcome reply = .ok (some s') ↔
      ∃ s₁, (c.descendAll chain s).outcome reply = .ok (some s₁) ∧
        (c.descend pat child s₁).outcome reply = .ok (some s') := by
  have hone (x : NodeId) (s : Place) : (c.descendAll [x] s).outcome reply = .ok (some s) := rfl
  induction chain generalizing s with
  | nil => cases hlast
  | cons x rest ih =>
    cases rest with
    | nil =>
      cases hlast
      rw [List.singleton_append, descendAll_cons_cons_eq_some_iff]
      simp [hone]
    | cons y rest =>
      rw [List.getLast?_cons_cons] at hlast
      rw [List.cons_append, List.cons_append, descendAll_cons_cons_eq_some_iff,
        ← List.cons_append]
      simp only [ih hlast, descendAll_cons_cons_eq_some_iff]
      constructor
      · rintro ⟨s₁, hs₁, s₂, hs₂, h⟩
        exact ⟨s₂, ⟨s₁, hs₁, hs₂⟩, h⟩
      · rintro ⟨s₂, ⟨s₁, hs₁, hs₂⟩, h⟩
        exact ⟨s₁, hs₁, s₂, hs₂, h⟩

/-- The way down to a node ends at a place exactly if reading the pattern from the top comes to the
node with a view of that place. -/
theorem descendAll_eq_some_iff (ht : c.tree.Ordered) (ha : c.tree.Agreeing) {start : Ty}
    (htop : c.tree.Outermost top id)
    (hn : ∀ pat, c.tree.Encloses pat id → (c.tree.children pat).Nodup) {s : Place} :
    (c.descendAll (c.tree.wayDown id) ⟨start, none⟩).outcome reply = .ok (some s) ↔
      ∃ v, c.Reaches reply top start id v ∧ s = v.place := by
  obtain ⟨henc, houter⟩ := htop
  -- by the patterns from the top to the node: the last step of the way is the last of the reading
  induction henc using Relation.ReflTransGen.head_induction_on generalizing s with
  | refl =>
    rw [SyntaxTree.Outermost.wayDown_top ht ha ⟨.refl, houter⟩]
    constructor
    · intro h
      cases h
      exact ⟨⟨start, []⟩, .top, rfl⟩
    · rintro ⟨v, hv, rfl⟩
      rw [hv.eq_start houter]
      rfl
  | @head id pat hin _ ih =>
    have hlast : (c.tree.wayDown pat).getLast? = some pat := List.getLast?_concat
    rw [SyntaxTree.wayDown_of_inside ht ha hin, descendAll_concat_eq_some_iff hlast]
    have hpat (s : Place) := ih (fun x hx => hn x (.head hin hx)) (s := s)
    have hnodup := hn pat (.single hin)
    constructor
    · rintro ⟨s₁, hs₁, h⟩
      obtain ⟨v, hv, rfl⟩ := (hpat s₁).mp hs₁
      obtain ⟨v', hv', rfl⟩ := (descend_eq_some_iff ht ha hnodup).mp h
      exact ⟨v', hv.step hv', rfl⟩
    · rintro ⟨v', h, rfl⟩
      cases h with
      | top => exact absurd hin (houter pat)
      | step hv henters =>
        -- the reading can only have come from the one pattern that lists the node
        cases henters.inside.unique ha hin
        exact ⟨_, (hpat _).mpr ⟨_, hv, rfl⟩,
          (descend_eq_some_iff ht ha hnodup).mpr ⟨v', henters, rfl⟩⟩

theorem Reaches.place_unique (ht : c.tree.Ordered) (ha : c.tree.Agreeing)
    (htop : c.tree.Outermost top id)
    (hn : ∀ pat, c.tree.Encloses pat id → (c.tree.children pat).Nodup) {start : Ty} {v' : View}
    (h : c.Reaches reply top start id v) (h' : c.Reaches reply top start id v') :
    v.place = v'.place := by
  have h := (descendAll_eq_some_iff ht ha htop hn).mpr ⟨v, h, rfl⟩
  have h' := (descendAll_eq_some_iff ht ha htop hn).mpr ⟨v', h', rfl⟩
  simpa using h.symm.trans h'

theorem outcome_bindingAt (v : View) {name : Name} {byRef mutable : Bool} {sub : Option NodeId}
    (hk : c.tree.kind? id = some (.pat (.binding name byRef mutable sub))) :
    (c.bindingAt id v.place).outcome reply = .ok (v.bound byRef mutable) := by
  rw [bindingAt, kind_bind hk, ← View.place_bound]
  rfl

/-- The way down begins at the outermost pattern also where the binding itself was given. -/
theorem inferStructural_eq (ht : c.tree.Ordered) (ha : c.tree.Agreeing) {outer : NodeId}
    (houter : c.tree.Outermost outer id) (htop : top = outer ∨ top = id) (ty : Ty) :
    c.inferStructural id top ty = (do
      match ← c.descendAll (c.tree.wayDown id) ⟨ty, none⟩ with
      | none => return .unknown
      | some s => c.bindingAt id s) := by
  have heq : (c.tree.patsAbove id).getLast?.getD id = outer := houter.eq_topPat ht ha
  have hmeant : ¬(id ≠ top ∧ (c.tree.patsAbove id).getLast? ≠ some top) := by
    rintro ⟨hne, hlast⟩
    rcases htop with rfl | rfl
    · cases hl : (c.tree.patsAbove id).getLast? with
      | none =>
        rw [hl] at heq
        exact hne heq
      | some x =>
        rw [hl] at heq hlast
        exact hlast (congrArg some heq)
    · exact hne rfl
  rw [inferStructural, if_neg hmeant]
  rfl

theorem inferStructural_of_other (ht : c.tree.Ordered) (ha : c.tree.Agreeing) {outer : NodeId}
    (houter : c.tree.Outermost outer id) (hne : top ≠ outer) (hid : top ≠ id) (ty : Ty) :
    c.inferStructural id top ty = .done .unknown := by
  have heq : (c.tree.patsAbove id).getLast?.getD id = outer := houter.eq_topPat ht ha
  have hlast : (c.tree.patsAbove id).getLast? ≠ some top := by
    intro hlast
    rw [hlast] at heq
    exact hne heq
  rw [inferStructural, if_pos ⟨Ne.symm hid, hlast⟩]
  rfl

theorem reads_iff_of_inferStructural (ht : c.tree.Ordered) (ha : c.tree.Agreeing)
    {name : Name} {byRef mutable : Bool} {sub : Option NodeId}
    (hk : c.tree.kind? id = some (.pat (.binding name byRef mutable sub))) {outer : NodeId}
    (houter : c.tree.Outermost outer id) (htop : top = outer ∨ top = id)
    (hn : ∀ pat, c.tree.Encloses pat id → (c.tree.children pat).Nodup) {start ty' : Ty}
    (h : (c.inferStructural id top start).outcome reply = .ok ty) :
    c.Reads reply outer start id ty' ↔ ty' = ty := by
  rw [inferStructural_eq ht ha houter htop] at h
  obtain ⟨r, hr, h⟩ := outcome_bind_ok_iff.mp h
  have hreach (s : Place) :
      (c.descendAll (c.tree.wayDown id) ⟨start, none⟩).outcome reply = .ok (some s) ↔
        ∃ v, c.Reaches reply outer start id v ∧ s = v.place :=
    descendAll_eq_some_iff ht ha houter hn
  cases r with
  | none =>
    cases h
    have hnone (v : View) : ¬c.Reaches reply outer start id v := by
      intro hv
      have hsome := (hreach v.place).mpr ⟨v, hv, rfl⟩
      rw [hr] at hsome
      cases hsome
    constructor
    · intro hreads
      cases hreads with
      | bound hv _ => exact absurd hv (hnone _)
      | unmatched _ => rfl
    · rintro rfl
      exact .unmatched hnone
  | some s =>
    obtain ⟨v, hv, rfl⟩ := (hreach s).mp hr
    rw [outcome_bindingAt v hk] at h
    cases h
    constructor
    · intro hreads
      cases hreads with
      | bound hv' hk' =>
        cases hk.symm.trans hk'
        rw [← View.place_bound, hv'.place_unique ht ha houter hn hv, View.place_bound]
      | unmatched hnone => exact absurd hv (hnone v)
    · rintro rfl
      exact .bound hv hk

theorem gives_iff_of_bindingType (ht : c.tree.Ordered) (ha : c.tree.Agreeing)
    (hi : c.inference = .structural) {name : Name} {byRef mutable : Bool} {sub : Option NodeId}
    (hk : c.tree.kind? id = some (.pat (.binding name byRef mutable sub)))
    (htop : c.tree.Outermost top id)
    (hn : ∀ pat, c.tree.Encloses pat id → (c.tree.children pat).Nodup) {ty' : Ty}
    (h : (c.bindingType id).outcome reply = .ok ty) : c.Gives reply id top ty' ↔ ty' = ty := by
  rw [bindingType, htop.eq_topPat ht ha, hi] at h
  cases ho : c.tree.origin? top with
  | none =>
    rw [ho] at h
    cases h
    apply gives_iff_of_unowned
    intro o hcontr
    rw [(SyntaxTree.origin?_eq_some_iff ha).mpr hcontr] at ho
    cases ho
  | some o =>
    rw [ho] at h
    obtain ⟨start, hstart, h⟩ := outcome_bind_ok_iff.mp h
    rw [gives_iff_reads ha ((SyntaxTree.origin?_eq_some_iff ha).mp ho) hstart]
    exact reads_iff_of_inferStructural ht ha hk htop (.inl rfl) hn h

end Context

end TypeDerivation
