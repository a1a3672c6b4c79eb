import MemberAccess.Source.Type

/-!
# Paths to crates

The path to a crate in generated code is absolute: every segment stands after `::`. It is read as
any other path in code, so that a segment is an identifier, which may have arguments, or one of the
keywords that may stand in a path.

## Main definitions

* `CratePath`: an absolute path.
* `CratePath.ofText?`: the path that a text spells.
* `CratePath.render`: the tokens of a path, separated by spaces.
-/

namespace MemberAccess

open Source

/-- **An absolute path to a crate** or a module of it, by the texts of its segments. -/
structure CratePath where
  segments : List String
deriving DecidableEq

namespace CratePath

/-- The absolute path that tokens are, all of them. -/
def ofTokens? (ts : List TokenTree) : Option CratePath :=
  match CodeReader.path false (CodeLayer.ofDepth (size ts)) ⟨ts, none⟩ with
  | .error _ => none
  | .ok (p, c) =>
    if p.leading && c.rest.isEmpty && c.leftOver.isNone then
      some ⟨p.segments.map fun s => Source.render s.tokens⟩
    else none

/-- **The path that a text spells,** without the `::` at its front. -/
def ofText? (text : String) : Option CratePath :=
  (tokens? ("::" ++ text)).bind ofTokens?

/-- The tokens of the path. -/
def render (p : CratePath) : String :=
  " ".intercalate (p.segments.map fun word => ":: " ++ word)

end CratePath

end MemberAccess
