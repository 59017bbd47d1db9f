import TypeDerivation.Node.Id
import TypeDerivation.Ty

/-!
A derivation works out an answer by asking for the types of nodes. It does not say how a request
is answered: that is for the one who runs it.
-/

namespace TypeDerivation

inductive Request where
  | expr (node : NodeId)
  /-- The type of whatever a node declares. -/
  | entity (node : NodeId)
  | item (node : NodeId)
  | typeExpr (node : NodeId)
deriving DecidableEq, Inhabited

/-- Why there is no type at all, not even the unknown one. -/
inductive Fault where
  | outside (len index : Nat)
  | notAnItem (node : NodeId) (category : String)
  /-- An entry was to be taken out of a list that has no such place. -/
  | beyond (len index : Nat)
  /-- More requests were open inside each other than the run allows for. -/
  | exhausted
deriving DecidableEq, Inhabited

def Fault.message : Fault → String
  | outside len index => outsideText len index
  | notAnItem node category =>
    "cannot typify " ++ node.displayText ++ " as an item: it is a " ++ category
  | beyond len index =>
    "swap_remove index (is " ++ toString index ++ ") should be < len (is " ++ toString len ++ ")"
  | exhausted => "derivation nests too deeply"

inductive Derivation (α : Type) : Type where
  | done (a : α)
  | stop (fault : Fault)
  | ask (request : Request) (next : Ty → Derivation α)

namespace Derivation

variable {α β γ : Type}

def bind : Derivation α → (α → Derivation β) → Derivation β
  | done a, f => f a
  | stop fault, _ => stop fault
  | ask r next, f => ask r fun ty => (next ty).bind f

instance : Monad Derivation where
  pure := done
  bind := bind

def request (r : Request) : Derivation Ty := ask r done

def exprType (node : NodeId) : Derivation Ty := request (.expr node)

def entityType (node : NodeId) : Derivation Ty := request (.entity node)

def denotedType (node : NodeId) : Derivation Ty := request (.typeExpr node)

def denotedOr (absent : Ty) : Option NodeId → Derivation Ty
  | some node => denotedType node
  | none => done absent

def forEach (f : α → Derivation β) : List α → Derivation (List β)
  | [] => done []
  | a :: rest => do
    let b ← f a
    let bs ← forEach f rest
    return b :: bs

theorem bind_done (d : Derivation α) : d.bind done = d := by
  induction d with
  | done a => rfl
  | stop fault => rfl
  | ask r next ih => simp [bind, ih]

theorem bind_assoc (d : Derivation α) (f : α → Derivation β) (g : β → Derivation γ) :
    (d.bind f).bind g = d.bind fun a => (f a).bind g := by
  induction d with
  | done a => rfl
  | stop fault => rfl
  | ask r next ih => simp [bind, ih]

instance : LawfulMonad Derivation :=
  LawfulMonad.mk' _ bind_done (fun _ _ => rfl) bind_assoc

end Derivation
end TypeDerivation
