import Scribe.Tree.Basic

/-! Sameness of trees: the same shape with the same names and values throughout, where floats are
compared as numbers. So the two zeros are the same, and a tree with a not-a-number in it is not the
same as anything, itself included. -/

namespace Scribe

mutual

def Expr.same : Expr → Expr → Bool
  | .bool a, .bool b => a == b
  | .int a, .int b => a == b
  | .uint a, .uint b => a == b
  | .float a, .float b => a.same b
  | .string a, .string b => a == b
  | .name a, .name b => a == b
  | .typeName a, .typeName b => a == b
  | .member a f, .member b g => a.same b && f == g
  | .call f as, .call g bs => f == g && Expr.sameAll as bs
  | .unary o a, .unary p b => o == p && a.same b
  | .binary o a c, .binary p b d => o == p && a.same b && c.same d
  | _, _ => false

def Expr.sameAll : List Expr → List Expr → Bool
  | [], [] => true
  | a :: as, b :: bs => a.same b && Expr.sameAll as bs
  | _, _ => false

end

def Expr.sameOption : Option Expr → Option Expr → Bool
  | none, none => true
  | some a, some b => a.same b
  | _, _ => false

def Variable.same (a b : Variable) : Bool :=
  a.modifier == b.modifier && a.type == b.type && a.name == b.name && Expr.sameOption a.init b.init

def EnumValue.same (a b : EnumValue) : Bool := a.name == b.name && a.value.same b.value

def EnumValue.sameAll : List EnumValue → List EnumValue → Bool
  | [], [] => true
  | a :: as, b :: bs => a.same b && EnumValue.sameAll as bs
  | _, _ => false

mutual

def Stmt.same : Stmt → Stmt → Bool
  | .block a, .block b => Stmt.sameAll a b
  | .branch c a e, .branch d b f => c.same d && Stmt.sameOption a b && Stmt.sameAllOption e f
  | .whileLoop c a, .whileLoop d b => c.same d && a.same b
  | .forLoop i c n a, .forLoop j d m b => i.same j && c.same d && n.same m && a.same b
  | .switch c a, .switch d b => c.same d && Arm.sameAll a b
  | .ret a, .ret b => Expr.sameOption a b
  | .breakLoop, .breakLoop => true
  | .continueLoop, .continueLoop => true
  | .goto a, .goto b => a == b
  | .label a, .label b => a == b
  | .comment a, .comment b => a == b
  | .expr a, .expr b => a.same b
  | .decl a, .decl b => a.same b
  | _, _ => false

def Stmt.sameAll : List Stmt → List Stmt → Bool
  | [], [] => true
  | a :: as, b :: bs => a.same b && Stmt.sameAll as bs
  | _, _ => false

def Stmt.sameOption : Option Stmt → Option Stmt → Bool
  | none, none => true
  | some a, some b => a.same b
  | _, _ => false

def Stmt.sameAllOption : Option (List Stmt) → Option (List Stmt) → Bool
  | none, none => true
  | some a, some b => Stmt.sameAll a b
  | _, _ => false

def Arm.same : Arm → Arm → Bool
  | .onCase v a, .onCase w b => v.same w && Stmt.sameAll a b
  | .onDefault a, .onDefault b => Stmt.sameAll a b
  | _, _ => false

def Arm.sameAll : List Arm → List Arm → Bool
  | [], [] => true
  | a :: as, b :: bs => a.same b && Arm.sameAll as bs
  | _, _ => false

def Decl.same : Decl → Decl → Bool
  | .prototype i s, .prototype j t => i == j && s == t
  | .var a, .var b => a.same b
  | .procedure s a, .procedure t b => s == t && Stmt.sameAllOption a b
  | .enum n a, .enum m b => n == m && EnumValue.sameAll a b
  | .enumValue a, .enumValue b => a.same b
  | _, _ => false

end

def Decl.sameAll : List Decl → List Decl → Bool
  | [], [] => true
  | a :: as, b :: bs => a.same b && Decl.sameAll as bs
  | _, _ => false

def Script.same (a b : Script) : Bool :=
  a.imports == b.imports && Decl.sameAll a.declarations b.declarations

end Scribe
