import MemberAccess.Lambda.Expr.OfTokens
import MemberAccess.Lambda.Token.Scan

/-!
# Reading lambdas

A lambda is written `|x| body` or `x => body`. A parameter named `_` binds nothing.

## Main definitions

* `Lambda.ofTokens`: the lambda that a list of tokens spells.
* `Lambda.ofText`: the lambda that a text spells, or its first fault.
-/

namespace MemberAccess

namespace Reader

/-- The head of a lambda, whose value is the parameter. -/
def head : Reader String
  | .symbol .pipe :: rest =>
    (closed (ident .paramName) .pipe rest).map (·.widen (length_le_cons _ _))
  | .ident param :: .symbol .arrow :: rest => .ok ⟨param, rest, length_lt_cons_cons _ _ _⟩
  | ts => .error (.expected .lambda ts)

end Reader

namespace Lambda

/-- The number of levels of nesting that an expression may open at a time. -/
def nestingLimit : Nat := 128

/-- The reader of the body of a lambda. -/
def bodyReader (param : String) : Reader Expr :=
  (Layer.ofRoom param nestingLimit).expr 0

/-- **The lambda that tokens spell.** Nothing may follow the body. -/
def ofTokens (ts : List Token) : Except Rejection Lambda :=
  match Reader.head ts with
  | .error e => .error e
  | .ok head =>
    match bodyReader head.value head.rest with
    | .error e => .error e
    | .ok body =>
      match body.rest with
      | [] => .ok ⟨head.value, body.value⟩
      | t :: rest => .error ⟨t :: rest, .trailing t⟩

/-- The first byte of the first of the last `count` tokens, or the end of a text of `size` bytes
if there are none. -/
def offsetOf (tokens : List Placed) (size count : Nat) : Nat :=
  match tokens.drop (tokens.length - count) with
  | [] => size
  | t :: _ => t.start

/-- **The lambda that a text spells.** A piece that is no token is reported before all else. -/
def ofChars (cs : List Char) : Except SyntaxError Lambda :=
  match scan cs with
  | .error piece => .error ⟨piece.offset, .unrecognized piece.slice⟩
  | .ok tokens =>
    match ofTokens (tokens.map Placed.token) with
    | .error e => .error ⟨offsetOf tokens (byteLength cs) e.rest.length, e.fault⟩
    | .ok l => .ok l

/-- The lambda that a string spells. -/
def ofText (source : String) : Except SyntaxError Lambda :=
  ofChars source.toList

end Lambda

end MemberAccess
