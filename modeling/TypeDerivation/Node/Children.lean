import TypeDerivation.Node.Kind

/-!
The nodes directly below a node, in the order of the source. Every identifier that a kind holds
is listed.
-/

namespace TypeDerivation

def Signature.children (s : Signature) : List NodeId :=
  s.generics ++ s.selfParam.toList ++ s.params ++ s.ret.toList ++ s.body.toList

def Item.children : Item → List NodeId
  | struct _ generics fields => generics ++ fields
  | enum _ generics body => generics ++ body.toList
  | typeAlias _ generics target => generics ++ target.toList
  | fn _ sig => sig.children
  | trait _ generics members => generics ++ members
  | impl generics traitRef target members =>
    generics ++ traitRef.toList ++ target.toList ++ members
  | const _ ty value => ty.toList ++ value.toList
  | static _ _ ty value => ty.toList ++ value.toList
  | module _ items => items
  | use _ => []

def Decl.children : Decl → List NodeId
  | selfParam .. => []
  | param pat ty => pat.toList ++ ty.toList
  | field _ ty => ty.toList
  | tupleField ty => [ty]
  | variant _ fields => fields
  | method _ sig => sig.children
  | typeParam _ => []

def Stmt.children : Stmt → List NodeId
  | bind pat ty init => pat.toList ++ ty.toList ++ init.toList
  | semi expr => [expr]

def Expr.children : Expr → List NodeId
  | lit _ | unit | path _ | continueLoop => []
  | unary _ operand => operand.toList
  | binary _ lhs rhs => [lhs, rhs]
  | paren inner => [inner]
  | tuple elems | array elems => elems
  | struct _ fields base => fields.filterMap (·.value) ++ base.toList
  | call callee args => callee :: args
  | methodCall receiver _ args => receiver :: args
  | field receiver _ => [receiver]
  | index base place => [base, place]
  | cast expr ty => [expr, ty]
  | block inner => inner.toList
  | branch cond thenBlock elseBranch => cond.toList ++ thenBlock.toList ++ elseBranch.toList
  | whileLoop cond body => cond.toList ++ body.toList
  | loop body => body.toList
  | forLoop pat iter body => pat.toList ++ iter.toList ++ body.toList
  | select scrutinee arms => scrutinee.toList ++ arms
  | closure params ret body => params ++ ret.toList ++ body.toList
  | returnWith value | breakWith value => value.toList

def Pat.children : Pat → List NodeId
  | binding _ _ _ sub => sub.toList
  | wild | path _ | lit _ => []
  | tuple elems | tupleStruct _ elems => elems
  | ref inner _ => [inner]
  | struct _ fields => fields.map (·.pat)

def TypeExpr.children : TypeExpr → List NodeId
  | path _ | never | infer => []
  | tuple elems => elems
  | ref inner _ | ptr inner _ => inner.toList
  | array elem len => elem.toList ++ len.toList
  | slice elem => elem.toList
  | fnPtr params ret => params ++ ret.toList

def NodeKind.children : NodeKind → List NodeId
  | sourceFile items => items
  | item i => i.children
  | decl d => d.children
  | stmt s => s.children
  | expr e => e.children
  | pat p => p.children
  | typeExpr e => e.children
  | block stmts tail => stmts ++ tail.toList
  | enumBody variants => variants
  | matchArm p guard body => p.toList ++ guard.toList ++ body.toList
  | scopedLet p scrutinee => p.toList ++ scrutinee.toList

end TypeDerivation
