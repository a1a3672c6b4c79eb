import MemberAccess.Lambda.Expr
import MemberAccess.Lambda.SyntaxError

/-!
# Invalid paths

## Main definitions

* `InvalidPath`: why a specification is no path of members from a given type.
* `InvalidPath.message`: its text.
-/

namespace MemberAccess

/-- **Why a path is invalid.** Types are given by their names. -/
inductive InvalidPath where
  | syntaxError (e : SyntaxError)
  | unsupportedNode (kind : NodeKind)
  | unboundParameter (name : String)
  | empty
  | unknownMember (owner member : String)
  | noMembers (owner member : String)
  | memberOwnerMismatch (owner member : String)
  | rootTypeMismatch (expected found : String)
  | valueTypeMismatch (member expected found : String)
  | notSimple (fullName : String)
deriving DecidableEq

/-- The message of an invalid path. -/
def InvalidPath.message : InvalidPath → String
  | syntaxError e =>
    "syntax error at offset " ++ Literal.renderInt e.offset ++ ": " ++ e.fault.message
  | unsupportedNode kind => "unsupported " ++ kind.text ++ " node in member path"
  | unboundParameter name => "`" ++ name ++ "` is not the path's root parameter"
  | empty => "the path does not access any member"
  | unknownMember owner member => "`" ++ owner ++ "` has no member named `" ++ member ++ "`"
  | noMembers owner member =>
    "`" ++ owner ++ "` has no members, can not access `" ++ member ++ "`"
  | memberOwnerMismatch owner member =>
    "member `" ++ member ++ "` is listed by `" ++ owner ++ "` but belongs to another type"
  | rootTypeMismatch expected found =>
    "the path is rooted at `" ++ found ++ "`, expected `" ++ expected ++ "`"
  | valueTypeMismatch member expected found =>
    "member `" ++ member ++ "` has type `" ++ found ++ "`, expected `" ++ expected ++ "`"
  | notSimple fullName => "expected a single member access, found `" ++ fullName ++ "`"

end MemberAccess
