import TypeDerivation.Derivation.Rule
import TypeDerivation.Engine.Guards

namespace TypeDerivation.Context

variable (c : Context)

/-- Answers a request while at most `fuel` requests are open inside each other. -/
def answer : Nat → Request → Guarded Ty
  | 0, r => r.guarded c.settings.maxDepth (Guarded.fail .exhausted)
  | fuel + 1, r => r.guarded c.settings.maxDepth ((c.rule r).run (answer fuel))

/-- How many requests can be open inside each other. Between two declarations there are at most a
chain of expressions and a chain of type expressions, each going down the tree. -/
def reach : Nat := (c.tree.size + 1) * (2 * c.tree.size + 2)

/-- Works a derivation out with as many open requests as can be needed. -/
def eval {α : Type} (d : Derivation α) : Guarded α := d.run (c.answer c.reach)

theorem restores_answer (fuel : Nat) (r : Request) : (c.answer fuel r).Restores := by
  induction fuel generalizing r with
  | zero => exact Request.restores_guarded (Guarded.restores_fail _) _ r
  | succ fuel ih => exact Request.restores_guarded (Derivation.restores_run ih _) _ r

end TypeDerivation.Context
