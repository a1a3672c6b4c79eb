import MemberAccess.Lambda.Expr

/-!
# The text of expressions and lambdas

Casts and operators are put between parentheses wherever they are operands, so that no operand is
taken apart by a neighbour.

## Main definitions

* `Expr.render`: the text of an expression.
* `Lambda.render`: the text of a lambda, `|x| body`.
-/

namespace MemberAccess

namespace Expr

/-- Whether a node is put between parentheses as an operand. -/
def isLoose : Expr → Bool
  | cast _ _ | unary _ _ | binary _ _ _ => true
  | _ => false

/-- The text of an operand, given the text of the node alone. -/
def parenthesize (e : Expr) (text : String) : String :=
  if e.isLoose then "(" ++ text ++ ")" else text

mutual

/-- **The text of an expression.** -/
def render : Expr → String
  | parameter name => name
  | free name => name
  | member target name => target.parenthesize target.render ++ "." ++ name
  | cast operand type => operand.parenthesize operand.render ++ " as " ++ type
  | constant value => value.render
  | call path args => path ++ "(" ++ renderArgs args ++ ")"
  | method receiver name args =>
    receiver.parenthesize receiver.render ++ "." ++ name ++ "(" ++ renderArgs args ++ ")"
  | index target position =>
    target.parenthesize target.render ++ "[" ++ position.render ++ "]"
  | unary op operand => op.text ++ operand.parenthesize operand.render
  | binary op left right =>
    left.parenthesize left.render ++ " " ++ op.text ++ " " ++ right.parenthesize right.render

/-- The texts of arguments, separated by commas. -/
def renderArgs : List Expr → String
  | [] => ""
  | a :: as => a.render ++ renderMoreArgs as

/-- The texts of further arguments, each after a comma. -/
def renderMoreArgs : List Expr → String
  | [] => ""
  | a :: as => ", " ++ a.render ++ renderMoreArgs as

end

end Expr

/-- **The text of a lambda.** -/
def Lambda.render (l : Lambda) : String :=
  "|" ++ l.param ++ "| " ++ l.body.render

end MemberAccess
