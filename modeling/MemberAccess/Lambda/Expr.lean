import MemberAccess.Lambda.Literal

/-!
# Expressions and lambdas

A lambda has one parameter and a body. Only parameters, member accesses and casts can make up a
member path; the other kinds of nodes exist so that a rejected path can name what it contains.

## Main definitions

* `Expr`: the nodes of a body. A free name is any name other than the parameter. Paths of names and
  types are kept as text.
* `NodeKind`: the kinds of nodes, with their names in messages.
* `Expr.equal`: equality of expressions, in which doubles compare as numbers.
* `Lambda`: a parameter and a body.
-/

namespace MemberAccess

/-! ### Operators -/

/-- The operators before an operand. -/
inductive UnaryOp where
  | negate | complement
deriving DecidableEq

/-- The text of an operator before an operand. -/
def UnaryOp.text : UnaryOp → String
  | negate => "-"
  | complement => "!"

/-- The operators between two operands. -/
inductive BinaryOp where
  | or | and
  | eq | ne | lt | le | gt | ge
  | add | sub
  | mul | div | rem
deriving DecidableEq

namespace BinaryOp

/-- The text of an operator between two operands. -/
def text : BinaryOp → String
  | or => "||"
  | and => "&&"
  | eq => "=="
  | ne => "!="
  | lt => "<"
  | le => "<="
  | gt => ">"
  | ge => ">="
  | add => "+"
  | sub => "-"
  | mul => "*"
  | div => "/"
  | rem => "%"

/-- **Precedence.** An operator of a higher level binds tighter. -/
def level : BinaryOp → Nat
  | or => 1
  | and => 2
  | eq | ne | lt | le | gt | ge => 3
  | add | sub => 4
  | mul | div | rem => 5

end BinaryOp

/-- The level of a cast, above those of all operators between operands. -/
def castLevel : Nat := 6

/-! ### Nodes -/

/-- **An expression.** -/
inductive Expr where
  | parameter (name : String)
  | free (name : String)
  | member (target : Expr) (name : String)
  | cast (operand : Expr) (type : String)
  | constant (value : Literal)
  | call (path : String) (args : List Expr)
  | method (receiver : Expr) (name : String) (args : List Expr)
  | index (target : Expr) (position : Expr)
  | unary (op : UnaryOp) (operand : Expr)
  | binary (op : BinaryOp) (left : Expr) (right : Expr)

/-- The kinds of nodes. -/
inductive NodeKind where
  | parameter | free | member | cast | constant | call | method | index | unary | binary
deriving DecidableEq

/-- The name of a kind of node in messages. -/
def NodeKind.text : NodeKind → String
  | parameter => "parameter"
  | free => "variable"
  | member => "member"
  | cast => "cast"
  | constant => "constant"
  | call => "call"
  | method => "method call"
  | index => "index"
  | unary => "unary"
  | binary => "binary"

namespace Expr

/-- The kind of a node. -/
def kind : Expr → NodeKind
  | parameter _ => .parameter
  | free _ => .free
  | member _ _ => .member
  | cast _ _ => .cast
  | constant _ => .constant
  | call _ _ => .call
  | method _ _ _ => .method
  | index _ _ => .index
  | unary _ _ => .unary
  | binary _ _ _ => .binary

mutual

/-- **Equality of expressions.** The trees have the same shape and names, and their constants are
equal. -/
def equal : Expr → Expr → Bool
  | parameter m, parameter n => m = n
  | free m, free n => m = n
  | member s m, member t n => equal s t && m = n
  | cast s m, cast t n => equal s t && m = n
  | constant a, constant b => a.equal b
  | call m as, call n bs => m = n && equalArgs as bs
  | method s m as, method t n bs => equal s t && m = n && equalArgs as bs
  | index s i, index t j => equal s t && equal i j
  | unary p s, unary q t => p = q && equal s t
  | binary p s i, binary q t j => p = q && equal s t && equal i j
  | _, _ => false

/-- Equality of argument lists. -/
def equalArgs : List Expr → List Expr → Bool
  | [], [] => true
  | a :: as, b :: bs => equal a b && equalArgs as bs
  | _, _ => false

end

end Expr

/-! ### Lambdas -/

/-- **A lambda of one parameter.** -/
structure Lambda where
  param : String
  body : Expr

/-- Equality of lambdas. -/
def Lambda.equal (l m : Lambda) : Bool :=
  l.param = m.param && l.body.equal m.body

end MemberAccess
