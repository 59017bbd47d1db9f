import TypeDerivation.Text.Listing
import TypeDerivation.Tree
import TypeDerivation.Ty.Primitive

namespace TypeDerivation

def unknownText : String := "<unknown>"

def refMark (mutable : Bool) : String := if mutable then "&mut " else "&"

def SyntaxTree.declText (t : SyntaxTree) (id : NodeId) : String :=
  (t.name? id).elim unknownText t.text

namespace Ty

mutual

/-- The text of a type. A function that returns the unit type shows no result. -/
def text (t : SyntaxTree) : Ty → String
  | unknown => unknownText
  | unit => "()"
  | bool => "bool"
  | char => "char"
  | str => "str"
  | int k => k.spelling
  | float k => k.spelling
  | tuple elems => Text.tupled (texts t elems)
  | ref inner mutable => refMark mutable ++ inner.text t
  | struct d | enum d | trait d | typeParam d => t.declText d
  | fn params ret =>
    "fn(" ++ Text.listing (texts t params) ++ ")" ++
      (if ret.isUnit then "" else " -> " ++ ret.text t)

def texts (t : SyntaxTree) : List Ty → List String
  | [] => []
  | ty :: rest => ty.text t :: texts t rest

end

def writeText (t : SyntaxTree) (ty : Ty) (buffer : String) : String := buffer ++ ty.text t

theorem texts_eq_map (t : SyntaxTree) (tys : List Ty) : texts t tys = tys.map (text t) := by
  induction tys with
  | nil => simp [texts]
  | cons ty rest ih => simp [texts, ih]

theorem text_toTy (t : SyntaxTree) (p : Primitive) : p.toTy.text t = p.spelling := by
  cases p <;> rw [Primitive.toTy, text, Primitive.spelling]

theorem text_ofElems (t : SyntaxTree) (tys : List Ty) :
    (ofElems tys).text t = Text.tupled (tys.map (text t)) := by
  cases tys with
  | nil => rw [ofElems, text]; rfl
  | cons ty rest => rw [ofElems_of_ne_nil (by simp), text, texts_eq_map]

end Ty
end TypeDerivation
