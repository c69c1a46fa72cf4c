import Scribe.Single.Basic
import Scribe.Tree.Operator

/-! The trees of the script language. Names are arbitrary text and may be empty; a tree with an
empty name where one is needed, or with another piece missing, is a tree like any other here and is
refused when it is written. -/

namespace Scribe

inductive Expr where
  | bool (value : Bool)
  | int (value : Int32)
  | uint (value : UInt32)
  | float (value : Single)
  /-- The content as it should stand between the quotes. -/
  | string (content : String)
  | name (text : String)
  /-- Type names are keywords, so they are never delimited. -/
  | typeName (text : String)
  | member (operand : Expr) (field : String)
  | call (function : String) (arguments : List Expr)
  | unary (op : UnaryOp) (operand : Expr)
  | binary (op : BinaryOp) (left right : Expr)

/-- A parameter of a prototype or procedure. -/
structure Param where
  type : String
  name : String
  deriving DecidableEq

/-- What prototypes and procedures share. -/
structure Signature where
  returnType : String
  name : String
  params : List Param
  deriving DecidableEq

inductive Storage where
  | global
  | constant
  | aiLocal
  | aiGlobal
  | bit
  | count
  deriving DecidableEq

def Storage.keyword : Storage → String
  | .global => "global"
  | .constant => "const"
  | .aiLocal => "ai_local"
  | .aiGlobal => "ai_global"
  | .bit => "bit"
  | .count => "count"

/-- A storage class, optionally with an explicit slot as in `global(12)`. -/
structure Modifier where
  storage : Storage
  slot : Option UInt32
  deriving DecidableEq

structure Variable where
  modifier : Option Modifier
  type : String
  name : String
  init : Option Expr

structure EnumValue where
  name : String
  value : Expr

structure Comment where
  content : String
  /-- An inline comment stays on the current line. -/
  inline : Bool
  deriving DecidableEq

mutual

inductive Stmt where
  | block (body : List Stmt)
  /-- An absent body is fine as long as there is an `else`; an absent `else` is not an empty one. -/
  | branch (condition : Expr) (body : Option Stmt) (otherwise : Option (List Stmt))
  | whileLoop (condition : Expr) (body : Stmt)
  | forLoop (init condition after : Expr) (body : Stmt)
  | switch (scrutinee : Expr) (arms : List Arm)
  | ret (value : Option Expr)
  | breakLoop
  | continueLoop
  | goto (label : String)
  | label (name : String)
  | comment (comment : Comment)
  | expr (expr : Expr)
  | decl (decl : Decl)

/-- One label of a `switch` with the statements below it. -/
inductive Arm where
  | onCase (value : Expr) (body : List Stmt)
  | onDefault (body : List Stmt)

inductive Decl where
  /-- A native function, known by its index. -/
  | prototype (index : UInt32) (signature : Signature)
  | var (declared : Variable)
  /-- Without a body it is a forward declaration. -/
  | procedure (signature : Signature) (body : Option (List Stmt))
  | enum (name : String) (values : List EnumValue)
  | enumValue (value : EnumValue)

end

/-- A procedure declaration on its own, as something that statements can be placed in. -/
structure Procedure where
  signature : Signature
  body : Option (List Stmt)

def Procedure.name (p : Procedure) : String := p.signature.name

def Procedure.statements (p : Procedure) : List Stmt := p.body.getD []

/-- One source file. -/
structure Script where
  imports : List String
  declarations : List Decl

namespace Stmt

def isBlock : Stmt → Bool
  | .block _ => true
  | _ => false

def isBranch : Stmt → Bool
  | .branch .. => true
  | _ => false

end Stmt

namespace Arm

def isDefault : Arm → Bool
  | .onCase .. => false
  | .onDefault _ => true

end Arm

namespace Decl

def isPrototype : Decl → Bool
  | .prototype .. => true
  | _ => false

def isVariable : Decl → Bool
  | .var _ => true
  | _ => false

def isProcedure : Decl → Bool
  | .procedure .. => true
  | _ => false

end Decl

end Scribe
