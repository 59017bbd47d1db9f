import TypeDerivation.Path.Spelling
import TypeDerivation.Tree

/-!
Growing a tree. A node is added after its children; a child has to be in the tree and may not
have a parent yet. What fails leaves the nodes as they were.
-/

namespace TypeDerivation

inductive BuildError where
  | unknownNode (child : NodeId) (len : Nat)
  | alreadyParented (child parent : NodeId)
  | outside (len index : Nat)
deriving DecidableEq, Inhabited

def BuildError.message : BuildError → String
  | unknownNode child len =>
    "child " ++ child.debugText ++ " is not allocated (tree has " ++ toString len ++ " nodes)"
  | alreadyParented child parent =>
    child.debugText ++ " already belongs to " ++ parent.debugText
  | outside len index => outsideText len index

namespace SyntaxTree

variable (t : SyntaxTree)

def childError? (child : NodeId) : Option BuildError :=
  match t.get? child with
  | none => some (.unknownNode child t.size)
  | some node => node.parent.map (.alreadyParented child)

/-- The nodes, with `parent` above the nodes of `children`. -/
def linked (parent : NodeId) (children : List NodeId) : Array Node :=
  children.foldl (fun nodes c => nodes.modify c.index ({ · with parent := some parent })) t.nodes

/-- Adds a node above its children, or names the first child that cannot be one. -/
def addAt (kind : NodeKind) (span : Span) : Except BuildError (NodeId × SyntaxTree) :=
  match kind.children.findSome? t.childError? with
  | some e => .error e
  | none => .ok (⟨t.size⟩, { t with nodes := (t.linked ⟨t.size⟩ kind.children).push ⟨kind, span, none⟩ })

def hullOf (kind : NodeKind) : Span := Span.hull (kind.children.map t.span)

def add (kind : NodeKind) : Except BuildError (NodeId × SyntaxTree) := t.addAt kind (t.hullOf kind)

def setSpan (id : NodeId) (span : Span) : Except BuildError SyntaxTree :=
  if id.index < t.size then
    .ok { t with nodes := t.nodes.modify id.index ({ · with span := span }) }
  else .error (.outside t.size id.index)

def intern (s : String) : Name × SyntaxTree :=
  let (n, names) := t.names.intern s
  (n, { t with names := names })

def parsePath (s : String) : SymbolPath × SyntaxTree :=
  let (p, names) := SymbolPath.parse t.names s
  (p, { t with names := names })

end SyntaxTree

/-- A piece of work on a tree. Names that were given out stay, also when the work fails later. -/
abbrev Build := ExceptT BuildError (StateM SyntaxTree)

namespace Build

def node (kind : NodeKind) : Build NodeId := do
  let (id, t) ← (← get).add kind
  set t
  return id

def nodeAt (kind : NodeKind) (span : Span) : Build NodeId := do
  let (id, t) ← (← get).addAt kind span
  set t
  return id

def setSpan (id : NodeId) (span : Span) : Build Unit := do
  set (← (← get).setSpan id span)

def intern (s : String) : Build Name := modifyGet (·.intern s)

def path (s : String) : Build SymbolPath := modifyGet (·.parsePath s)

end Build
end TypeDerivation
