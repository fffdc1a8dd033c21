import Mathlib.Logic.Relation
import Seraph.Token

/-!
# The abstract syntax tree of Seraphim

`Ast` is a `Seraph_AST_Node *`, which may be null, with the node it points to ; a list that is
linked by `next` is a `List`. What holds of the children of each node holds of every node
(`Ast.induct`).

Left out are lengths and counts that a list has itself, and the kinds that the parser does not make.
-/

namespace Seraph

/-- What a pattern of a `match` arm holds. -/
inductive PatternKind where
  | other
  | ident (name : String)
  | int (value : UInt64)
deriving DecidableEq, Repr

/-- `Seraph_AST_Node *`. -/
inductive Ast where
  | null
  | void (loc : SourceLoc)
  | module (loc : SourceLoc) (decls : List Ast)
  -- declarations
  | fnDecl (loc : SourceLoc) (name : String) (params : List Ast) (retType body effects : Ast)
    (isPure isMethod isForward : Bool)
  | letDecl (loc : SourceLoc) (name : String) (type init : Ast) (isMut isConst : Bool)
  | constDecl (loc : SourceLoc) (name : String) (type init : Ast) (isMut isConst : Bool)
  | structDecl (loc : SourceLoc) (name : String) (fields : List Ast)
  | enumDecl (loc : SourceLoc) (name : String) (variants : List Ast)
  | implDecl (loc : SourceLoc) (type : Ast) (methods : List Ast)
  -- expressions
  | intLit (loc : SourceLoc) (value : UInt64) (suffix : NumSuffix)
  | floatLit (loc : SourceLoc) (value : UInt64) (suffix : NumSuffix)
  | stringLit (loc : SourceLoc) (value : String)
  | charLit (loc : SourceLoc) (value : UInt8)
  | boolLit (loc : SourceLoc) (value : Bool)
  | voidLit (loc : SourceLoc)
  | ident (loc : SourceLoc) (name : String)
  | binary (loc : SourceLoc) (op : TokenType) (left right : Ast)
  | unary (loc : SourceLoc) (op : TokenType) (operand : Ast)
  | voidProp (loc : SourceLoc) (operand defaultVal : Ast)
  | voidAssert (loc : SourceLoc) (operand : Ast)
  | call (loc : SourceLoc) (callee : Ast) (args : List Ast)
  | methodCall (loc : SourceLoc) (receiver : Ast) (method : String) (args : List Ast)
  | field (loc : SourceLoc) (object : Ast) (name : String)
  | index (loc : SourceLoc) (object index : Ast)
  | block (loc : SourceLoc) (stmts : List Ast) (expr : Ast)
  | ifExpr (loc : SourceLoc) (cond thenBranch elseBranch : Ast)
  | matchExpr (loc : SourceLoc) (scrutinee : Ast) (arms : List Ast)
  | array (loc : SourceLoc) (elements : List Ast)
  | structInit (loc : SourceLoc) (typePath : Ast) (fields : List Ast)
  | cast (loc : SourceLoc) (operand targetType : Ast)
  | range (loc : SourceLoc) (start stop : Ast) (inclusive : Bool)
  | closure (loc : SourceLoc) (params : List Ast) (retType body : Ast)
  -- statements
  | exprStmt (loc : SourceLoc) (expr : Ast)
  | returnStmt (loc : SourceLoc) (expr : Ast)
  | breakStmt (loc : SourceLoc)
  | continueStmt (loc : SourceLoc)
  | forStmt (loc : SourceLoc) (var : String) (iterable body : Ast)
  | whileStmt (loc : SourceLoc) (cond body : Ast)
  | persist (loc : SourceLoc) (body : Ast)
  | aether (loc : SourceLoc) (body : Ast)
  | recover (loc : SourceLoc) (tryBody elseBody : Ast)
  -- types
  | primType (loc : SourceLoc) (prim : TokenType)
  | namedType (loc : SourceLoc) (name : String)
  | arrayType (loc : SourceLoc) (elemType size : Ast)
  | sliceType (loc : SourceLoc) (elemType : Ast)
  | pointerType (loc : SourceLoc) (inner : Ast)
  | refType (loc : SourceLoc) (inner : Ast) (isMut : Bool) (substrate : UInt32)
  | fnType (loc : SourceLoc) (params : List Ast) (ret : Ast)
  | voidType (loc : SourceLoc) (inner : Ast)
  -- parts of nodes
  | param (loc : SourceLoc) (name : String) (type : Ast)
  | fieldDef (loc : SourceLoc) (name : String) (type : Ast)
  | enumVariant (loc : SourceLoc) (name : String) (data : Ast)
  | matchArm (loc : SourceLoc) (pattern guard body : Ast)
  | effectList (loc : SourceLoc) (effects : BitVec 32)
  | fieldInit (loc : SourceLoc) (name : String) (value : Ast)
  | pattern (loc : SourceLoc) (kind : PatternKind)
deriving Repr

namespace Ast

/-- `seraph_ast_is_void`. -/
def isVoid : Ast → Bool
  | null | void _ => true
  | _ => false

/-- `hdr.loc`. -/
def loc : Ast → SourceLoc
  | null => .zero
  | void l | module l .. | fnDecl l .. | letDecl l .. | constDecl l .. | structDecl l ..
  | enumDecl l .. | implDecl l .. | intLit l .. | floatLit l .. | stringLit l .. | charLit l ..
  | boolLit l .. | voidLit l | ident l .. | binary l .. | unary l .. | voidProp l ..
  | voidAssert l .. | call l .. | methodCall l .. | field l .. | index l .. | block l ..
  | ifExpr l .. | matchExpr l .. | array l .. | structInit l .. | cast l .. | range l ..
  | closure l .. | exprStmt l .. | returnStmt l .. | breakStmt l | continueStmt l | forStmt l ..
  | whileStmt l .. | persist l .. | aether l .. | recover l .. | primType l .. | namedType l ..
  | arrayType l .. | sliceType l .. | pointerType l .. | refType l .. | fnType l .. | voidType l ..
  | param l .. | fieldDef l .. | enumVariant l .. | matchArm l .. | effectList l .. | fieldInit l ..
  | pattern l .. => l

/-- The nodes that a node points to. -/
def children : Ast → List Ast
  | module _ decls => decls
  | fnDecl _ _ params retType body effects _ _ _ => params ++ [retType, body, effects]
  | letDecl _ _ type init _ _ | constDecl _ _ type init _ _ => [type, init]
  | structDecl _ _ fields => fields
  | enumDecl _ _ variants => variants
  | implDecl _ type methods => type :: methods
  | binary _ _ left right => [left, right]
  | unary _ _ operand => [operand]
  | voidProp _ operand defaultVal => [operand, defaultVal]
  | voidAssert _ operand => [operand]
  | call _ callee args => callee :: args
  | methodCall _ receiver _ args => receiver :: args
  | field _ object _ => [object]
  | index _ object i => [object, i]
  | block _ stmts expr => stmts ++ [expr]
  | ifExpr _ cond thenBranch elseBranch => [cond, thenBranch, elseBranch]
  | matchExpr _ scrutinee arms => scrutinee :: arms
  | array _ elements => elements
  | structInit _ typePath fields => typePath :: fields
  | cast _ operand targetType => [operand, targetType]
  | range _ start stop _ => [start, stop]
  | closure _ params retType body => params ++ [retType, body]
  | exprStmt _ expr | returnStmt _ expr => [expr]
  | forStmt _ _ iterable body => [iterable, body]
  | whileStmt _ cond body => [cond, body]
  | persist _ body | aether _ body => [body]
  | recover _ tryBody elseBody => [tryBody, elseBody]
  | arrayType _ elemType size => [elemType, size]
  | sliceType _ elemType => [elemType]
  | pointerType _ inner | refType _ inner _ _ | voidType _ inner => [inner]
  | fnType _ params ret => params ++ [ret]
  | param _ _ type | fieldDef _ _ type => [type]
  | enumVariant _ _ data => [data]
  | matchArm _ pat guard body => [pat, guard, body]
  | fieldInit _ _ value => [value]
  | null | void _ | intLit .. | floatLit .. | stringLit .. | charLit .. | boolLit .. | voidLit _
  | ident .. | breakStmt _ | continueStmt _ | primType .. | namedType .. | effectList ..
  | pattern .. => []

/-- A node is part of another one. -/
def Part : Ast → Ast → Prop :=
  Relation.ReflTransGen fun node child => child ∈ node.children

end Ast

end Seraph
