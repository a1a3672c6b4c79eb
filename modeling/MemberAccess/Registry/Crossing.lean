import MemberAccess.Registry.InfoCell
import MemberAccess.Registry.TypeInfo

/-!
# Registries and the crossing of wrappers

A registry describes finitely many types; a type that it does not list is a leaf. From a type one
reaches, wrapper by wrapper, the type inside. A wrapper may be around any listed type, itself
included, so the way need not end. As there are finitely many types, it ends unless some type
comes up twice.

## Main definitions

* `Registry`: a finite table of descriptions.
* `Registry.info`: the description of a type.
* `Registry.cross`: the wrappers from a type on, outermost first, and the type inside them; nothing
  if the wrappers never end.
-/

namespace MemberAccess

variable {U : Universe}

/-- **A registry of types.** -/
structure Registry (U : Universe) where
  cell : InfoCell U.Ty (TypeInfo U)

namespace Registry

/-- The description of a type. -/
def info (r : Registry U) (t : U.Ty) : TypeInfo U :=
  (r.cell.get? t).getD (.leaf t)

/-- The types that are listed. -/
def types (r : Registry U) : List U.Ty :=
  r.cell.entries.map (·.1)

/-- The registry of the types `ts`, described by `describe`. Each type is described once. -/
def ofTypes (describe : U.Ty → TypeInfo U) (ts : List U.Ty) : Registry U :=
  ⟨ts.foldl (fun cell t => ((Request.single t (describe t)).run cell).2) .empty⟩

/-- Crosses the wrappers from a description on, through listed types out of `unseen`. -/
def crossFrom (r : Registry U) (unseen : List U.Ty) (i : TypeInfo U) :
    Option (List (Wrapper U) × TypeInfo U) :=
  match i.wrapper? with
  | none => some ([], i)
  | some w =>
    if w.target ∈ unseen then
      (crossFrom r (unseen.erase w.target) (r.info w.target)).map fun inner =>
        (w :: inner.1, inner.2)
    else if w.target ∈ r.types then none
    else some ([w], r.info w.target)
termination_by unseen.length
decreasing_by
  have := List.length_pos_of_mem ‹w.target ∈ unseen›
  rw [List.length_erase_of_mem ‹w.target ∈ unseen›]
  omega

/-- **Crosses the wrappers** from a description on. -/
def cross (r : Registry U) (i : TypeInfo U) : Option (List (Wrapper U) × TypeInfo U) :=
  r.crossFrom r.types i

end Registry

end MemberAccess
