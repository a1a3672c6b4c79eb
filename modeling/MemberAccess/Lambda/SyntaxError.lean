import MemberAccess.Lambda.Token

/-!
# Syntax errors

## Main definitions

* `Expectation`: what could have stood where a token is wrong.
* `SyntaxFault`: what is wrong at a place of the text, and its message.
* `SyntaxError`: a fault with its byte offset.
-/

namespace MemberAccess

/-- **What was expected.** -/
inductive Expectation where
  | lambda
  | paramName
  | symbol (s : Symbol)
  | expression
  | memberName
  | name
  | segment
  | typeArgumentEnd
deriving DecidableEq

/-- The words for what was expected. -/
def Expectation.text : Expectation → String
  | lambda => "a lambda `|x| ...` or `x => ...`"
  | paramName => "a parameter name"
  | symbol s => "`" ++ String.ofList s.chars ++ "`"
  | expression => "an expression"
  | memberName => "a member name after `.`"
  | name => "a name"
  | segment => "a name after `::`"
  | typeArgumentEnd => "`,` or `>` in type arguments"

/-- **What is wrong.** A fault of a token concerns the token at its place, or the end of the text
if there is none. -/
inductive SyntaxFault where
  | unrecognized (slice : List Char)
  | expected (what : Expectation) (found : Option Token)
  | trailing (token : Token)
  | tooDeep
deriving DecidableEq

/-- The message of a fault. -/
def SyntaxFault.message : SyntaxFault → String
  | unrecognized slice => "unrecognized input `" ++ String.ofList slice ++ "`"
  | expected what (some token) => "expected " ++ what.text ++ ", found `" ++ token.text ++ "`"
  | expected what none => "expected " ++ what.text ++ ", found end of input"
  | trailing token => "unexpected `" ++ token.text ++ "` after the lambda body"
  | tooDeep => "expression nested too deeply"

/-- A fault and the offset of its first byte. -/
structure SyntaxError where
  offset : Nat
  fault : SyntaxFault
deriving DecidableEq

end MemberAccess
