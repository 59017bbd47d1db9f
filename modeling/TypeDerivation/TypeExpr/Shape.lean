import TypeDerivation.Path
import TypeDerivation.Ty.Primitive

namespace TypeDerivation

/-- What a type expression says before its names are resolved. -/
inductive Shape where
  | unknown
  | unit
  | primitive (p : Primitive)
  | tuple (elems : List NodeId)
  | ref (inner : NodeId) (mutable : Bool)
  | path (path : SymbolPath)
deriving DecidableEq, Inhabited

def Shape.isUnknown (s : Shape) : Bool := s = .unknown

end TypeDerivation
