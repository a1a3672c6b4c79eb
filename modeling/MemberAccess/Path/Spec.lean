import MemberAccess.Lambda.OfText
import MemberAccess.Path.InvalidPath

/-!
# Specifications of member paths

A path is specified by a lambda, or by the text of one. Its body must be a chain of member
accesses that ends at the parameter; casts on the way do not count.

## Main definitions

* `PathSpec`: a text or a lambda.
* `Expr.chain`: the names that an expression accesses, and the node where they start.
* `Lambda.memberNames`: the names of a path, root first.
* `joinNames`: the full name of a path.
-/

namespace MemberAccess

/-- **A specification of a path.** -/
inductive PathSpec where
  | text (source : String)
  | built (lambda : Lambda)

/-- The lambda of a specification. -/
def PathSpec.lambda : PathSpec → Except InvalidPath Lambda
  | text source =>
    match Lambda.ofText source with
    | .error e => .error (.syntaxError e)
    | .ok l => .ok l
  | built l => .ok l

/-- **The chain of member accesses** on the outside of an expression: their names, innermost first,
and the first node below them that is neither a member access nor a cast. -/
def Expr.chain : Expr → List String × Expr
  | member target name => (target.chain.1 ++ [name], target.chain.2)
  | cast operand _ => operand.chain
  | e => ([], e)

/-- **The member names of a lambda,** root first. Its body must access a member, and do so from the
parameter of the lambda. -/
def Lambda.memberNames (l : Lambda) : Except InvalidPath (List String) :=
  match l.body.chain with
  | (names, .parameter p) =>
    if p ≠ l.param then .error (.unboundParameter p)
    else if names = [] then .error .empty
    else .ok names
  | (_, e) => .error (.unsupportedNode e.kind)

/-- The member names of a specification, root first. -/
def PathSpec.memberNames (spec : PathSpec) : Except InvalidPath (List String) := do
  let l ← spec.lambda
  l.memberNames

/-- Names joined by points. -/
def joinNames (names : List String) : String :=
  ".".intercalate names

/-- The full name of a specification: its member names, joined by points. -/
def PathSpec.fullName (spec : PathSpec) : Except InvalidPath String :=
  spec.memberNames.map joinNames

end MemberAccess
