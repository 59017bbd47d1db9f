import TypeDerivation.Tree.Building

namespace TypeDerivation

inductive Shorthand where
  | lit (kind : LiteralKind) (text : String)
  | boolLit (value : Bool)
  | pathExpr (text : String)
  | pathTypeExpr (text : String)
  | refTypeExpr (inner : NodeId) (mutable : Bool)
  | binding (name : String)
  | block (stmts : List NodeId) (tail : Option NodeId)
  | bind (pat : NodeId) (ty init : Option NodeId)
  | param (pat : NodeId) (ty : Option NodeId)
  | fnItem (name : String) (sig : Signature)
deriving DecidableEq, Inhabited

namespace Shorthand

def buildLit (kind : LiteralKind) (text : String) : Build NodeId := do
  Build.node (.expr (.lit ⟨kind, ← Build.intern text⟩))

/-- A block is two nodes, and the outer one is answered. -/
def build : Shorthand → Build NodeId
  | lit kind text => buildLit kind text
  | boolLit value => buildLit (.bool value) (if value then "true" else "false")
  | pathExpr text => do Build.node (.expr (.path (← Build.path text)))
  | pathTypeExpr text => do Build.node (.typeExpr (.path (← Build.path text)))
  | refTypeExpr inner mutable => Build.node (.typeExpr (.ref (some inner) mutable))
  | binding name => do Build.node (.pat (.binding (← Build.intern name) false false none))
  | block stmts tail => do
    let inner ← Build.node (.block stmts tail)
    Build.node (.expr (.block (some inner)))
  | bind pat ty init => Build.node (.stmt (.bind (some pat) ty init))
  | param pat ty => Build.node (.decl (.param (some pat) ty))
  | fnItem name sig => do Build.node (.item (.fn (← Build.intern name) sig))

end Shorthand

inductive Step where
  | intern (text : String)
  | path (text : String)
  | node (kind : NodeKind)
  | nodeAt (kind : NodeKind) (span : Span)
  | setSpan (id : NodeId) (span : Span)
  | shorthand (s : Shorthand)
deriving DecidableEq, Inhabited

inductive Product where
  | name (n : Name)
  | path (p : SymbolPath)
  | node (id : NodeId)
  | done
deriving DecidableEq, Inhabited

namespace Step

def perform : Step → Build Product
  | intern text => return .name (← Build.intern text)
  | path text => return .path (← Build.path text)
  | node kind => return .node (← Build.node kind)
  | nodeAt kind span => return .node (← Build.nodeAt kind span)
  | setSpan id span => do
    Build.setSpan id span
    return .done
  | shorthand s => return .node (← s.build)

def run (s : Step) (t : SyntaxTree) : Except BuildError Product × SyntaxTree :=
  (s.perform.run).run t

end Step

namespace SyntaxTree

/-- The tree after some calls, whether they succeed or fail. -/
def afterSteps (t : SyntaxTree) (steps : List Step) : SyntaxTree :=
  steps.foldl (fun t s => (s.run t).2) t

/-- A tree that calls alone have made. -/
def Built (t : SyntaxTree) : Prop := ∃ steps, t = empty.afterSteps steps

theorem built_empty : Built empty := ⟨[], rfl⟩

theorem Built.step {t : SyntaxTree} (h : Built t) (s : Step) : Built (s.run t).2 := by
  obtain ⟨steps, rfl⟩ := h
  exact ⟨steps ++ [s], by simp [afterSteps]⟩

end SyntaxTree
end TypeDerivation
