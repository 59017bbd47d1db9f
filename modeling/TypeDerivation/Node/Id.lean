namespace TypeDerivation

structure NodeId where
  index : Nat
deriving DecidableEq, Inhabited

namespace NodeId

def debugText (id : NodeId) : String := "NodeId(" ++ toString id.index ++ ")"

def displayText (id : NodeId) : String := "#" ++ toString id.index

theorem index_inj {a b : NodeId} : a.index = b.index ↔ a = b := by
  cases a; cases b; simp

end NodeId

/-- What is said of an identifier that stands for no node of a tree with `len` nodes. -/
def outsideText (len index : Nat) : String :=
  "index out of bounds: the len is " ++ toString len ++ " but the index is " ++ toString index

end TypeDerivation
