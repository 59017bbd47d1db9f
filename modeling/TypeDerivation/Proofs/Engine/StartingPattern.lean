import TypeDerivation.Proofs.Engine.Destructuring

/-!
The type of a binding from the type of a pattern around it. The way down is the one from the
outermost pattern, whichever pattern the type was given for.
-/

namespace TypeDerivation

namespace Context

open TypeDerivation.Derivation

variable {c : Context} {reply : Replies} {id top : NodeId} {start ty : Ty} {v : View}

theorem Reaches.index_le (ht : c.tree.Ordered) (h : c.Reaches reply top start id v) :
    id.index ≤ top.index := by
  induction h with
  | top => exact Nat.le_refl _
  | step _ henters ih =>
    obtain ⟨kind, hk, hc⟩ := SyntaxTree.mem_children_iff_kind?.mp henters.inside.2
    exact Nat.le_trans (Nat.le_of_lt (ht.child_lt hk hc)) ih

/-- A reading does not come back to where it began. -/
theorem Reaches.eq_start_of_ordered (ht : c.tree.Ordered) (h : c.Reaches reply top start top v) :
    v = ⟨start, []⟩ := by
  cases h with
  | top => rfl
  | step hpat henters =>
    obtain ⟨kind, hk, hc⟩ := SyntaxTree.mem_children_iff_kind?.mp henters.inside.2
    have := ht.child_lt hk hc
    have := hpat.index_le ht
    omega

/-- Read from the binding itself, the type is the one given, behind a reference if the binding
takes one. -/
theorem reads_self_iff (ht : c.tree.Ordered) {name : Name} {byRef mutable : Bool}
    {sub : Option NodeId} (hk : c.tree.kind? id = some (.pat (.binding name byRef mutable sub))) :
    c.Reads reply id start id ty ↔ ty = View.bound ⟨start, []⟩ byRef mutable := by
  constructor
  · intro h
    cases h with
    | bound hv hk' =>
      cases hk.symm.trans hk'
      rw [hv.eq_start_of_ordered ht]
    | unmatched hnone => exact absurd .top (hnone _)
  · rintro rfl
    exact .bound .top hk

theorem answerQuery_infer_ok (ht : c.tree.Ordered) (hR : c.resolver.Within c.tree) (i : Inference)
    (hid : id.index < c.tree.size) (top : NodeId) (start : Ty) :
    ∃ ty, c.answerQuery (.infer i id top start) .idle = (.ok ty, .idle) ∧
      (c.infer i id top start).outcome (c.answers .idle) = .ok ty := by
  have hmeets : (c.infer i id top start).Meets (Request.Proper c.tree) (fun _ => True)
      fun _ => True :=
    meets_infer ht hR (fun _ hr => hr.1) Ty.hereditary_true i hid top trivial
  have hreplies (r : Request) (hr : r.Proper c.tree) :
      ∃ ty, c.answers .idle r = .ok ty ∧ True := by
    obtain ⟨ty, hty⟩ := answers_ok ht hR (Guards.fits_idle _) hr
    exact ⟨ty, hty, trivial⟩
  obtain ⟨ty, hty, -⟩ := hmeets.outcome hreplies
  refine ⟨ty, ?_, hty⟩
  rw [answers_eq_replies] at hty
  rw [answerQuery, queried, eval, run_eq_replies, hty]

end Context

/-- Given the type of the outermost pattern or of the binding itself, the answer is what a reading
from the outermost pattern gives; given that of a pattern in between, it is unknown. -/
theorem inference_starts_outermost {t : SyntaxTree} (ht : t.Built) {R : Resolver} (hR : R.Tabled t)
    (s : Settings) (i : Inference) {id outer : NodeId} {name : Name} {byRef mutable : Bool}
    {sub : Option NodeId} (hk : t.kind? id = some (.pat (.binding name byRef mutable sub)))
    (houter : t.Outermost outer id) (hn : ∀ pat, t.Encloses pat id → (t.children pat).Nodup)
    (top : NodeId) (start : Ty) :
    let c : Context := ⟨t, R, s, i⟩
    ∃ ty, c.answerQuery (.infer .structural id top start) .idle = (.ok ty, .idle) ∧
      (top = outer ∨ top = id →
        ∀ ty', c.Reads (c.answers .idle) outer start id ty' ↔ ty' = ty) ∧
      (top ≠ outer → top ≠ id → ty = .unknown) := by
  intro c
  have ho : c.tree.Ordered := ht.ordered
  have ha : c.tree.Agreeing := ht.agreeing
  obtain ⟨ty, hanswer, hty⟩ := Context.answerQuery_infer_ok (c := c) ho (hR.within ho) .structural
    (SyntaxTree.lt_of_kind? hk) top start
  refine ⟨ty, hanswer, ?_, ?_⟩
  · intro htop ty'
    exact Context.reads_iff_of_inferStructural ho ha hk houter htop hn hty
  · intro hne hid
    rw [Context.infer, Context.inferStructural_of_other ho ha houter hne hid] at hty
    cases hty
    rfl

/-- A name in a tuple pattern in a tuple pattern. -/
def twiceWrapped : SyntaxTree :=
  .afterSteps .empty [.shorthand (.binding "x"), .node (.pat (.tuple [⟨0⟩])),
    .node (.pat (.tuple [⟨1⟩]))]

theorem twiceWrapped_built : twiceWrapped.Built := ⟨_, rfl⟩

theorem kind?_twiceWrapped : twiceWrapped.kind? ⟨0⟩ = some (.pat (.binding ⟨7⟩ false false none)) :=
  rfl

theorem inside_twiceWrapped : twiceWrapped.Inside ⟨0⟩ ⟨1⟩ ∧ twiceWrapped.Inside ⟨1⟩ ⟨2⟩ :=
  ⟨⟨rfl, by decide⟩, rfl, by decide⟩

theorem not_inside_twiceWrapped (pat : NodeId) : ¬twiceWrapped.Inside ⟨2⟩ pat := by
  intro h
  have hroot : twiceWrapped.parent? ⟨2⟩ = none := rfl
  cases hroot.symm.trans (h.parent? twiceWrapped_built.agreeing)

theorem outermost_twiceWrapped : twiceWrapped.Outermost ⟨2⟩ ⟨0⟩ :=
  ⟨.head inside_twiceWrapped.1 (.single inside_twiceWrapped.2), not_inside_twiceWrapped⟩

theorem nodup_twiceWrapped {pat : NodeId} (h : twiceWrapped.Encloses pat ⟨0⟩) :
    (twiceWrapped.children pat).Nodup := by
  have ha := twiceWrapped_built.agreeing
  have hpat : pat = ⟨0⟩ ∨ pat = ⟨1⟩ ∨ pat = ⟨2⟩ := by
    -- Up from the name, one pattern after the other.
    induction h with
    | refl => exact .inl rfl
    | tail _ hin ih =>
      rcases ih with rfl | rfl | rfl
      · exact .inr (.inl (hin.unique ha inside_twiceWrapped.1))
      · exact .inr (.inr (hin.unique ha inside_twiceWrapped.2))
      · exact absurd hin (not_inside_twiceWrapped _)
  rcases hpat with rfl | rfl | rfl <;> decide

def twiceWrappedContext : Context := ⟨twiceWrapped, .none, .standard, .structural⟩

theorem answer_twiceWrapped_name : twiceWrappedContext.answerQuery
    (.infer .structural ⟨0⟩ ⟨0⟩ (.tuple [.tuple [.bool]])) .idle = (.ok .bool, .idle) := rfl

theorem answer_twiceWrapped_between : twiceWrappedContext.answerQuery
    (.infer .structural ⟨0⟩ ⟨1⟩ (.tuple [.bool])) .idle = (.ok .unknown, .idle) := rfl

theorem inference_starts_outermost_twiceWrapped :
    let c := twiceWrappedContext
    let start : Ty := .tuple [.tuple [.bool]]
    twiceWrapped.Built ∧ Resolver.none.Tabled twiceWrapped ∧
      twiceWrapped.kind? ⟨0⟩ = some (.pat (.binding ⟨7⟩ false false none)) ∧
      twiceWrapped.Outermost ⟨2⟩ ⟨0⟩ ∧
      (∀ pat, twiceWrapped.Encloses pat ⟨0⟩ → (twiceWrapped.children pat).Nodup) ∧
      c.answerQuery (.infer .structural ⟨0⟩ ⟨0⟩ start) .idle = (.ok .bool, .idle) ∧
      ∀ ty, c.Reads (c.answers .idle) ⟨2⟩ start ⟨0⟩ ty ↔ ty = .bool := by
  intro c start
  have hn : ∀ pat, twiceWrapped.Encloses pat ⟨0⟩ → (twiceWrapped.children pat).Nodup :=
    fun _ => nodup_twiceWrapped
  obtain ⟨ty, hanswer, hreads, -⟩ := inference_starts_outermost twiceWrapped_built .none .standard
    .structural kind?_twiceWrapped outermost_twiceWrapped hn ⟨0⟩ start
  cases congrArg Prod.fst (answer_twiceWrapped_name.symm.trans hanswer)
  exact ⟨twiceWrapped_built, .none, kind?_twiceWrapped, outermost_twiceWrapped, hn, hanswer,
    hreads (.inr rfl)⟩

/-- The type given for the name alone is not the answer, nor is the entry of the type given for the
pattern right above it. -/
theorem inner_start_not_read :
    let c := twiceWrappedContext
    let start : Ty := .tuple [.tuple [.bool]]
    twiceWrapped.Built ∧ twiceWrapped.kind? ⟨0⟩ = some (.pat (.binding ⟨7⟩ false false none)) ∧
      (∀ pat, twiceWrapped.Encloses pat ⟨0⟩ → (twiceWrapped.children pat).Nodup) ∧
      twiceWrapped.Encloses ⟨0⟩ ⟨0⟩ ∧
      (∀ ty, c.Reads (c.answers .idle) ⟨0⟩ start ⟨0⟩ ty ↔ ty = start) ∧
      c.answerQuery (.infer .structural ⟨0⟩ ⟨0⟩ start) .idle = (.ok .bool, .idle) ∧
      twiceWrapped.Encloses ⟨1⟩ ⟨0⟩ ∧ c.Reads (c.answers .idle) ⟨1⟩ (.tuple [.bool]) ⟨0⟩ .bool ∧
      c.answerQuery (.infer .structural ⟨0⟩ ⟨1⟩ (.tuple [.bool])) .idle = (.ok .unknown, .idle) := by
  intro c start
  have htuple : twiceWrapped.kind? ⟨1⟩ = some (.pat (.tuple [⟨0⟩])) := rfl
  have hbetween : c.Reaches (c.answers .idle) ⟨1⟩ (.tuple [.bool]) ⟨0⟩ ⟨.bool, []⟩ :=
    Context.Reaches.top.step (.tuple (i := 0) htuple rfl rfl rfl rfl)
  have hself (ty : Ty) : c.Reads (c.answers .idle) ⟨0⟩ start ⟨0⟩ ty ↔ ty = start :=
    Context.reads_self_iff (c := c) twiceWrapped_built.ordered kind?_twiceWrapped
  exact ⟨twiceWrapped_built, kind?_twiceWrapped, fun _ => nodup_twiceWrapped, .refl, hself,
    answer_twiceWrapped_name, .single inside_twiceWrapped.1, .bound hbetween kind?_twiceWrapped,
    answer_twiceWrapped_between⟩

end TypeDerivation
