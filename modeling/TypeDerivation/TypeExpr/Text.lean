import TypeDerivation.TypeExpr.Shape
import TypeDerivation.Path.Spelling
import TypeDerivation.Ty.Text

namespace TypeDerivation

namespace SyntaxTree

variable (t : SyntaxTree)

def typeExprTextWithin : Nat → NodeId → String
  | 0, _ => unknownText
  | fuel + 1, id =>
    let part := typeExprTextWithin fuel
    let optional (id : Option NodeId) := id.elim unknownText part
    match t.kind? id with
    | some (.typeExpr e) =>
      match e with
      | .path p => p.render t.names
      | .tuple elems => Text.tupled (elems.map part)
      | .ref inner mutable => refMark mutable ++ optional inner
      | .ptr inner mutable => (if mutable then "*mut " else "*const ") ++ optional inner
      | .array elem _ => "[" ++ optional elem ++ "; _]"
      | .slice elem => "[" ++ optional elem ++ "]"
      | .fnPtr params ret =>
        "fn(" ++ Text.listing (params.map part) ++ ")" ++ ret.elim "" (" -> " ++ part ·)
      | .never => "!"
      | .infer => "_"
    | _ => unknownText

/-- The text of a type expression, in the words that were written. A part comes earlier in the
tree than the whole, so the size of the tree bounds the levels. -/
def typeExprText (id : NodeId) : String := t.typeExprTextWithin t.size id

end SyntaxTree

def Shape.text (t : SyntaxTree) : Shape → String
  | .unknown => unknownText
  | .unit => "()"
  | .primitive p => p.spelling
  | .tuple elems => Text.tupled (elems.map t.typeExprText)
  | .ref inner mutable => refMark mutable ++ t.typeExprText inner
  | .path p => p.render t.names

end TypeDerivation
