import MemberAccess.Registry.TypeInfo
import MemberAccess.Text.Quoted

/-!
# Summaries of members

A member and its handles are shown on one line, with the names of their types and what they can do.

## Main definitions

* `ErasedHandles.summary`: the handles on one line.
* `Member.summary`: a member on one line.
-/

namespace MemberAccess

variable {U : Universe}

/-- The word for a truth value. -/
def boolText (b : Bool) : String := if b then "true" else "false"

/-- **The handles of a member on one line.** -/
def ErasedHandles.summary (h : ErasedHandles U) : String :=
  "MemberHandles \x7b owner: " ++ Text.quoted (U.name h.owner) ++ ", value: " ++
    Text.quoted (U.name h.value) ++ ", get_mut: " ++ boolText h.hasGetMut ++ ", set: " ++
    boolText h.hasSet ++ " \x7d"

/-- **A member on one line.** -/
def Member.summary (m : Member U) : String :=
  "MemberInfo \x7b name: " ++ Text.quoted m.name ++ ", kind: " ++ m.kind.variant ++
    ", accessibility: " ++ m.accessibility.variant ++ ", value: " ++ Text.quoted m.valueName ++
    ", writable: " ++ boolText m.isWritable ++ " \x7d"

end MemberAccess
