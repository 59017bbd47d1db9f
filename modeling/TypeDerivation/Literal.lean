import TypeDerivation.Name

namespace TypeDerivation

inductive LiteralKind where
  | int | float | str | char | byte | byteStr
  | bool (value : Bool)
deriving DecidableEq, Inhabited

structure Literal where
  kind : LiteralKind
  text : Name
deriving DecidableEq, Inhabited

end TypeDerivation
