namespace TypeDerivation

inductive UnaryOp where
  | ref (mutable : Bool)
  | deref | neg | not | box
deriving DecidableEq, Inhabited

inductive BinaryOp where
  | add | sub | mul | div | rem
  | eq | notEq | lt | ltEq | gt | gtEq
  | and | or
  | bitAnd | bitOr | bitXor | shl | shr
  | assign | addAssign | subAssign
deriving DecidableEq, Inhabited

namespace BinaryOp

def symbol : BinaryOp → String
  | add => "+" | sub => "-" | mul => "*" | div => "/" | rem => "%"
  | eq => "==" | notEq => "!=" | lt => "<" | ltEq => "<=" | gt => ">" | gtEq => ">="
  | and => "&&" | or => "||"
  | bitAnd => "&" | bitOr => "|" | bitXor => "^" | shl => "<<" | shr => ">>"
  | assign => "=" | addAssign => "+=" | subAssign => "-="

def isComparison : BinaryOp → Bool
  | eq | notEq | lt | ltEq | gt | gtEq => true
  | _ => false

def isLogical : BinaryOp → Bool
  | and | or => true
  | _ => false

end BinaryOp
end TypeDerivation
