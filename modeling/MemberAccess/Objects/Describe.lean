import MemberAccess.Objects.Obj
import MemberAccess.Registry.Crossing

/-!
# Descriptions of the types of objects

Options and boxes are wrappers around their content, declared types are what their declaration
says, and all other types are leaves. The members of a declared type read, borrow and assign the
cells that back them; a setter notes its cell before it stores the value.

## Main definitions

* `Declarations.universe`: the types of objects with their values.
* `Declarations.handles`: the handles of the member that a cell backs.
* `Declarations.describe`: the description of a type.
* `Declarations.registry`: the registry of the declared types and of others.
-/

namespace MemberAccess

/-- **The universe of objects.** -/
abbrev Declarations.universe (D : Declarations) : Universe where
  Ty := Ty
  Val := Obj D
  name := Ty.name D.family
  decEq := inferInstance

/-! ### Members -/

namespace Obj

variable {D : Declarations} {n : Nat}

/-- The row of an object, and `spare` if it holds none. -/
def rowOr (spare : D.isWrapper n = true → Row D (D.cells n)) :
    Obj D (.declared n) → Row D (D.cells n)
  | record _ row _ => row
  | hollow _ h _ => spare h

end Obj

namespace Declarations

variable (D : Declarations)

/-- **The handles of the member that a cell backs.** The cell is a place in the row of an object,
and `spare` is the row of an empty wrapper. -/
def handles (n : Nat) (spare : D.isWrapper n = true → Row D (D.cells n)) {t : Ty} (cell : Nat)
    (place : Place (D.cells n) t) (hasGetMut hasSet : Bool) :
    Handles D.universe (.declared n) t where
  get o := (o.rowOr spare).get place
  getMut :=
    if hasGetMut then
      some fun o =>
        ((o.rowOr spare).get place, fun v => .record n ((o.rowOr spare).set place v) o.calls)
    else none
  set :=
    if hasSet then some fun o v => .record n ((o.rowOr spare).set place v) (o.calls ++ [cell])
    else none

/-- The member of a declaration. There is none if its owner does not have the cell, or if its owner
is a wrapper of which no full value is known. -/
def member? (m : MemberDeclaration) : Option (Member D.universe) :=
  (Place.ofNumber? (D.cells m.owner) m.cell).bind fun place =>
    let make (spare : D.isWrapper m.owner = true → Row D (D.cells m.owner)) :
        Member D.universe :=
      ⟨m.name, m.kind, m.accessibility,
        ⟨.declared m.owner, place.1,
          D.handles m.owner spare m.cell place.2 m.hasGetMut m.hasSet⟩⟩
    if h : D.isWrapper m.owner = true then
      (Obj.spareRow? D m.owner).map fun row => make fun _ => row
    else some (make fun h' => absurd h' h)

/-! ### Wrappers -/

/-- The wrapper of an option. -/
def optionWrapper (t : Ty) : Wrapper D.universe :=
  .ofView true (.option t) t fun
    | .absent => none
    | .present x => some (x, .present)

/-- The wrapper of a box. -/
def boxWrapper (t : Ty) : Wrapper D.universe :=
  .ofView false (.boxed t) t fun
    | .boxed x => some (x, .boxed)

/-- The wrapper of a declared type around the cell at a place. -/
def cellWrapper (nullable : Bool) (n : Nat) {t : Ty} (place : Place (D.cells n) t) :
    Wrapper D.universe :=
  .ofView nullable (.declared n) t fun
    | .record _ row calls => some (row.get place, fun x => .record n (row.set place x) calls)
    | .hollow _ _ _ => none

/-! ### Types -/

/-- The description of a declared type. A wrapper is around its first cell. -/
def describeDeclared (n : Nat) : TypeInfo D.universe :=
  match D.shape n with
  | .leaf => .leaf (.declared n)
  | .composite members => .composite (.declared n) (members.filterMap D.member?)
  | .wrapper nullable =>
    match Place.ofNumber? (D.cells n) 0 with
    | some place => .wrapper (.declared n) (D.cellWrapper nullable n place.2)
    | none => .leaf (.declared n)

/-- **The description of a type.** -/
def describe : Ty → TypeInfo D.universe
  | .option t => .wrapper (.option t) (D.optionWrapper t)
  | .boxed t => .wrapper (.boxed t) (D.boxWrapper t)
  | .declared n => D.describeDeclared n
  | t => .leaf t

/-- The types that the declarations mention. -/
def mentioned : List Ty :=
  (List.range D.types.length).map .declared ++
    D.types.flatMap fun d => d.cells.flatMap Ty.contents

/-- **The registry** of the types that the declarations and `others` mention. -/
def registry (others : List Ty) : Registry D.universe :=
  .ofTypes D.describe (D.mentioned ++ others.flatMap Ty.contents)

end Declarations

end MemberAccess
