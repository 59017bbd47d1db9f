import Std.Data.TreeMap
import TypeDerivation.Path.Spelling
import TypeDerivation.Tree.Ancestry

/-!
Which declaration a name stands for. A resolver answers for a node that refers to something, and
for a path that is read at some node.
-/

namespace TypeDerivation

structure Resolver where
  reference : SyntaxTree → NodeId → Option NodeId
  path : SyntaxTree → SymbolPath → NodeId → Option NodeId

def Resolver.none : Resolver := ⟨fun _ _ => .none, fun _ _ _ => .none⟩

structure ResolvedNames where
  references : Std.TreeMap Nat NodeId
  paths : Std.TreeMap String NodeId

namespace SyntaxTree

def receiverAt? (t : SyntaxTree) (scope : NodeId) : Option NodeId := do
  let fn ← t.enclosing? NodeKind.hasSignature scope
  let sig ← (← t.kind? fn).signature?
  sig.selfParam

def spelledPath? (t : SyntaxTree) (id : NodeId) : Option SymbolPath :=
  match t.kind? id with
  | some (.expr (.path p)) | some (.expr (.struct p ..)) => some p
  | some (.pat (.path p)) | some (.pat (.struct p _)) | some (.pat (.tupleStruct p _)) => some p
  | _ => none

end SyntaxTree

namespace ResolvedNames

def empty : ResolvedNames := ⟨∅, ∅⟩

def bindReference (r : ResolvedNames) (node decl : NodeId) : ResolvedNames :=
  { r with references := r.references.insert node.index decl }

def bindPath (r : ResolvedNames) (text : String) (decl : NodeId) : ResolvedNames :=
  { r with paths := r.paths.insert text decl }

def size (r : ResolvedNames) : Nat := r.references.size + r.paths.size

def isEmpty (r : ResolvedNames) : Bool := r.references.isEmpty && r.paths.isEmpty

variable (r : ResolvedNames) (t : SyntaxTree)

/-- A path other than a bare `Self`: a bare `self` is the receiver of the function around it, any
other path is looked up by its text. -/
def ordinaryPath? (p : SymbolPath) (scope : NodeId) : Option NodeId :=
  if p.isBareSelfValue then t.receiverAt? scope else r.paths[p.render t.names]?

/-- A bare `Self` is the trait around it, or what the target of the impl around it names. A target
that itself begins with `Self` names nothing. -/
def selfType? (scope : NodeId) : Option NodeId := do
  let owner ← t.enclosing? NodeKind.isImplOrTrait scope
  match t.kind? owner with
  | some (.item (.trait ..)) => some owner
  | some (.item (.impl _ _ (some target) _)) =>
    match t.kind? target with
    | some (.typeExpr (.path p)) =>
      if p.head = .selfType then none else r.ordinaryPath? t p target
    | _ => none
  | _ => none

def path? (p : SymbolPath) (scope : NodeId) : Option NodeId :=
  if p.isBareSelfType then r.selfType? t scope else r.ordinaryPath? t p scope

/-- A recorded reference goes before the path that the node spells. -/
def reference? (node : NodeId) : Option NodeId :=
  match r.references[node.index]? with
  | some decl => some decl
  | none => (t.spelledPath? node).bind (r.path? t · node)

def resolver : Resolver := ⟨r.reference?, r.path?⟩

end ResolvedNames
end TypeDerivation
