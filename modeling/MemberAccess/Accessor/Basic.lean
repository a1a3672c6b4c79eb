import MemberAccess.Accessor.Chain

/-!
# Accessors

An accessor reads and writes one member path of a root type. A member of the root itself is read
by its typed handle, any other through a chain. It is written by the typed setter of a public
member of the root, or by borrowing the owner along the path and then assigning the member, or by a
setter of the caller's.

## Main definitions

* `Getter`, `Setter`: the two halves of an accessor.
* `Accessor`: a getter, a setter and the names of the path.
* `Accessor.get`, `Accessor.set`: reading and writing a root.
* `BoundAccessor`: an accessor with one root.
-/

namespace MemberAccess

variable {U : Universe} {T V : U.Ty}

/-! ### Reading -/

/-- **How a member is read:** by its typed handle, or through a chain. -/
inductive Getter (U : Universe) (T V : U.Ty) where
  | direct (get : U.Val T → U.Val V)
  | chain (c : Chain U)

/-- Reads the member of a root. -/
def Getter.get (g : Getter U T V) (root : U.Val T) : Except Failure (U.Val V) :=
  match g with
  | direct get => .ok (get root)
  | chain c =>
    match c.read ⟨T, root⟩ with
    | .error failure => .error failure
    | .ok d =>
      match d.as? V with
      | some v => .ok v
      | none => .error (.foreignValue (U.name V))

/-! ### Writing -/

/-- **How the member of a borrowed owner is assigned:** through a borrow of the member, or by its
setter. -/
inductive Assign (U : Universe) where
  | slot (m : Member U)
  | setter (m : Member U)

namespace Assign

/-- The member assigned. -/
def member : Assign U → Member U
  | slot m | setter m => m

/-- The mode of the assignment. -/
def mode : Assign U → AssignMode
  | slot _ => .slot
  | setter _ => .setter

/-- Assigns the member of an owner. The owner afterwards comes with the outcome. -/
def perform (a : Assign U) (owner : Dyn U) (v : U.Val V) :
    Except Failure Unit × U.Val owner.ty :=
  match a with
  | slot m =>
    match m.handles.readMut owner with
    | none => (.error (.foreignOwner m.name), owner.val)
    | some part =>
      match part.store? ⟨V, v⟩ with
      | some after => (.ok (), after)
      | none => (.error (.foreignValue (U.name V)), part.restore)
  | setter m =>
    match m.handles.assign owner ⟨V, some v⟩ with
    | some after => (.ok (), after)
    | none => (.error (.foreignOwner m.name), owner.val)

end Assign

/-- **How a member is written.** -/
inductive Setter (U : Universe) (T V : U.Ty) where
  | direct (set : U.Val T → U.Val V → U.Val T)
  | compound (parents : Chain U) (assign : Assign U)
  | explicit (set : U.Val T → U.Val V → U.Val T)

namespace Setter

/-- **Writes the member of a root.** The root afterwards comes with the outcome. -/
def set (s : Setter U T V) (root : U.Val T) (v : U.Val V) : Except Failure Unit × U.Val T :=
  match s with
  | direct f => (.ok (), f root v)
  | compound parents assign =>
    match parents.readMut ⟨T, root⟩ with
    | .error (failure, after) => (.error failure, after)
    | .ok owner =>
      let done := assign.perform owner.dyn v
      (done.1, owner.fill done.2)
  | explicit f => (.ok (), f root v)

/-- The strategy of a setter. -/
def strategy : Setter U T V → SetStrategy
  | direct _ => .direct
  | compound _ _ => .compound
  | explicit _ => .explicit

/-- The layout of a setter in the log. -/
def layout (name : U.Ty → String) : Setter U T V → SetterLayout
  | direct _ => .direct
  | compound parents assign => .compound (parents.links name) assign.mode assign.member.name
  | explicit _ => .explicit

end Setter

/-! ### Both -/

/-- **An accessor** of a member path from `T` to `V`. -/
structure Accessor (U : Universe) (T V : U.Ty) where
  getter : Getter U T V
  setter : Setter U T V
  names : List String

namespace Accessor

/-- **Reads** the member of a root. -/
def get (a : Accessor U T V) (root : U.Val T) : Except Failure (U.Val V) :=
  a.getter.get root

/-- **Writes** the member of a root. The root afterwards comes with the outcome. -/
def set (a : Accessor U T V) (root : U.Val T) (v : U.Val V) : Except Failure Unit × U.Val T :=
  a.setter.set root v

/-- The full name of the path. -/
def fullName (a : Accessor U T V) : String := joinNames a.names

/-- How the member is written. -/
def strategy (a : Accessor U T V) : SetStrategy := a.setter.strategy

/-- A summary of an accessor. -/
def summary (a : Accessor U T V) : String :=
  "CompiledAccessor \x7b root: " ++ Text.quoted (U.name T) ++ ", value: " ++
    Text.quoted (U.name V) ++ ", path: " ++ Text.quoted a.fullName ++ ", set: " ++
    a.strategy.text ++ " \x7d"

end Accessor

/-! ### Bound accessors -/

/-- **An accessor with a root of its own.** It can be used on other roots as well. -/
structure BoundAccessor (U : Universe) (T V : U.Ty) where
  accessor : Accessor U T V
  root : U.Val T

/-- Binds an accessor to a root. -/
def Accessor.bind (a : Accessor U T V) (root : U.Val T) : BoundAccessor U T V := ⟨a, root⟩

namespace BoundAccessor

/-- Reads the member of the bound root. -/
def get (b : BoundAccessor U T V) : Except Failure (U.Val V) := b.accessor.get b.root

/-- Writes the member of the bound root. -/
def set (b : BoundAccessor U T V) (v : U.Val V) : Except Failure Unit × BoundAccessor U T V :=
  let done := b.accessor.set b.root v
  (done.1, ⟨b.accessor, done.2⟩)

/-- Reads the member of another root. -/
def getOn (b : BoundAccessor U T V) (other : U.Val T) : Except Failure (U.Val V) :=
  b.accessor.get other

/-- Writes the member of another root, which is given back. -/
def setOn (b : BoundAccessor U T V) (other : U.Val T) (v : U.Val V) :
    Except Failure Unit × U.Val T :=
  b.accessor.set other v

/-- A summary of a bound accessor. -/
def summary (b : BoundAccessor U T V) : String :=
  "BoundAccessor \x7b accessor: " ++ b.accessor.summary ++ ", .. \x7d"

end BoundAccessor

end MemberAccess
