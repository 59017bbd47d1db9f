import TypeDerivation.Literal
import TypeDerivation.Node.Id
import TypeDerivation.Node.Operator
import TypeDerivation.Path

namespace TypeDerivation

structure Signature where
  generics : List NodeId
  selfParam : Option NodeId
  params : List NodeId
  ret : Option NodeId
  body : Option NodeId
deriving DecidableEq, Inhabited

inductive Item where
  | struct (name : Name) (generics fields : List NodeId)
  | enum (name : Name) (generics : List NodeId) (body : Option NodeId)
  | typeAlias (name : Name) (generics : List NodeId) (target : Option NodeId)
  | fn (name : Name) (sig : Signature)
  | trait (name : Name) (generics members : List NodeId)
  | impl (generics : List NodeId) (traitRef target : Option NodeId) (members : List NodeId)
  | const (name : Name) (ty value : Option NodeId)
  | static (name : Name) (mutable : Bool) (ty value : Option NodeId)
  | module (name : Name) (items : List NodeId)
  | use (path : SymbolPath)
deriving DecidableEq, Inhabited

inductive Decl where
  | selfParam (byRef mutable : Bool)
  | param (pat ty : Option NodeId)
  | field (name : Name) (ty : Option NodeId)
  | tupleField (ty : NodeId)
  | variant (name : Name) (fields : List NodeId)
  | method (name : Name) (sig : Signature)
  | typeParam (name : Name)
deriving DecidableEq, Inhabited

inductive Stmt where
  | bind (pat ty init : Option NodeId)
  | semi (expr : NodeId)
deriving DecidableEq, Inhabited

/-- A field of a struct literal; without a value it is a shorthand. -/
structure FieldInit where
  name : Name
  value : Option NodeId
deriving DecidableEq, Inhabited

inductive FieldName where
  | named (name : Name)
  | positional (index : Nat)
deriving DecidableEq, Inhabited

inductive Expr where
  | lit (value : Literal)
  | unit
  | path (path : SymbolPath)
  | unary (op : UnaryOp) (operand : Option NodeId)
  | binary (op : BinaryOp) (lhs rhs : NodeId)
  | paren (inner : NodeId)
  | tuple (elems : List NodeId)
  | array (elems : List NodeId)
  | struct (path : SymbolPath) (fields : List FieldInit) (base : Option NodeId)
  | call (callee : NodeId) (args : List NodeId)
  | methodCall (receiver : NodeId) (method : Name) (args : List NodeId)
  | field (receiver : NodeId) (field : FieldName)
  | index (base place : NodeId)
  | cast (expr ty : NodeId)
  | block (inner : Option NodeId)
  | branch (cond thenBlock elseBranch : Option NodeId)
  | whileLoop (cond body : Option NodeId)
  | loop (body : Option NodeId)
  | forLoop (pat iter body : Option NodeId)
  | select (scrutinee : Option NodeId) (arms : List NodeId)
  | closure (params : List NodeId) (ret body : Option NodeId)
  | returnWith (value : Option NodeId)
  | breakWith (value : Option NodeId)
  | continueLoop
deriving DecidableEq, Inhabited

structure FieldPat where
  name : Name
  pat : NodeId
deriving DecidableEq, Inhabited

inductive Pat where
  | binding (name : Name) (byRef mutable : Bool) (sub : Option NodeId)
  | wild
  | tuple (elems : List NodeId)
  | ref (inner : NodeId) (mutable : Bool)
  | struct (path : SymbolPath) (fields : List FieldPat)
  | tupleStruct (path : SymbolPath) (elems : List NodeId)
  | path (path : SymbolPath)
  | lit (value : Literal)
deriving DecidableEq, Inhabited

inductive TypeExpr where
  | path (path : SymbolPath)
  | tuple (elems : List NodeId)
  | ref (inner : Option NodeId) (mutable : Bool)
  | array (elem len : Option NodeId)
  | slice (elem : Option NodeId)
  | ptr (inner : Option NodeId) (mutable : Bool)
  | fnPtr (params : List NodeId) (ret : Option NodeId)
  | never
  | infer
deriving DecidableEq, Inhabited

inductive NodeKind where
  | sourceFile (items : List NodeId)
  | item (item : Item)
  | decl (decl : Decl)
  | stmt (stmt : Stmt)
  | expr (expr : Expr)
  | pat (pat : Pat)
  | typeExpr (typeExpr : TypeExpr)
  | block (stmts : List NodeId) (tail : Option NodeId)
  | enumBody (variants : List NodeId)
  | matchArm (pat guard body : Option NodeId)
  | scopedLet (pat scrutinee : Option NodeId)
deriving DecidableEq, Inhabited

def Item.name? : Item → Option Name
  | struct name .. | enum name .. | typeAlias name .. | fn name .. | trait name ..
  | const name .. | static name .. | module name .. => some name
  | impl .. | use .. => none

def Decl.name? : Decl → Option Name
  | field name .. | variant name .. | method name .. | typeParam name => some name
  | selfParam .. | param .. | tupleField .. => none

namespace NodeKind

def isItem : NodeKind → Bool
  | item _ => true
  | _ => false

def isExpr : NodeKind → Bool
  | expr _ => true
  | _ => false

def isPat : NodeKind → Bool
  | pat _ => true
  | _ => false

def isTypeExpr : NodeKind → Bool
  | typeExpr _ => true
  | _ => false

def category : NodeKind → String
  | sourceFile .. => "source file"
  | item .. => "item"
  | decl .. => "declaration"
  | stmt .. => "statement"
  | expr .. => "expression"
  | pat .. => "pattern"
  | typeExpr .. => "type annotation"
  | block .. => "block"
  | enumBody .. => "enum body"
  | matchArm .. => "match arm"
  | scopedLet .. => "scoped let"

def name? : NodeKind → Option Name
  | item i => i.name?
  | decl d => d.name?
  | pat (.binding name ..) => some name
  | _ => none

def signature? : NodeKind → Option Signature
  | item (.fn _ sig) | decl (.method _ sig) => some sig
  | _ => none

def hasSignature (k : NodeKind) : Bool := k.signature?.isSome

def isVariant : NodeKind → Bool
  | decl (.variant ..) => true
  | _ => false

def isEnum : NodeKind → Bool
  | item (.enum ..) => true
  | _ => false

def isEnumBody : NodeKind → Bool
  | enumBody .. => true
  | _ => false

def isImpl : NodeKind → Bool
  | item (.impl ..) => true
  | _ => false

def isImplOrTrait : NodeKind → Bool
  | item (.impl ..) | item (.trait ..) => true
  | _ => false

def isTypeable : NodeKind → Bool
  | expr _ | item _ | pat (.binding ..) => true
  | decl (.selfParam ..) | decl (.variant ..) | decl (.method ..) | decl (.typeParam ..) => true
  | _ => false

end NodeKind
end TypeDerivation
