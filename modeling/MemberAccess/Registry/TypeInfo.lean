import MemberAccess.Registry.Handles
import MemberAccess.Registry.MemberTable

/-!
# Descriptions of types

A type is a leaf, a composite of members, or a wrapper around a value of another type. A wrapper
is opened on the way from one member to the next; it may be empty.

## Main definitions

* `Member`: a member of a composite, with its handles.
* `Wrapper`: how a value inside another is reached.
* `Wrapper.ofView`: the wrapper of a typed view.
* `TypeInfo`: the description of a type.
-/

namespace MemberAccess

variable {U : Universe}

/-! ### Members -/

/-- What backs a member: a field of its owner, or methods. -/
inductive MemberKind where
  | field | property
deriving DecidableEq

/-- The name of a kind of member in lower case. -/
def MemberKind.text : MemberKind → String
  | field => "field"
  | property => "property"

/-- The name of a kind of member, capitalized. -/
def MemberKind.variant : MemberKind → String
  | field => "Field"
  | property => "Property"

/-- Who may write a member. -/
inductive Accessibility where
  | isPublic | nonPublic
deriving DecidableEq

/-- The name of an accessibility in lower case. -/
def Accessibility.text : Accessibility → String
  | isPublic => "public"
  | nonPublic => "non-public"

/-- The name of an accessibility, capitalized. -/
def Accessibility.variant : Accessibility → String
  | isPublic => "Public"
  | nonPublic => "NonPublic"

/-- **A member.** The types of its owner and of its value are those of its handles. -/
structure Member (U : Universe) where
  name : String
  kind : MemberKind
  accessibility : Accessibility
  handles : ErasedHandles U

namespace Member

/-- The type of the owners that the handles take. -/
def owner (m : Member U) : U.Ty := m.handles.owner

/-- The type of the member. -/
def value (m : Member U) : U.Ty := m.handles.value

/-- The name of the type of the member. -/
def valueName (m : Member U) : String := U.name m.value

/-- Whether the member has a setter. -/
def isWritable (m : Member U) : Bool := m.handles.hasSet

/-- Whether the member can be borrowed mutably. -/
def isTraversable (m : Member U) : Bool := m.handles.hasGetMut

end Member

/-! ### Wrappers -/

/-- **A wrapper** around a value of the type `target`. Opening gives nothing if the wrapper is
empty, or if the value is not of the wrapping type. -/
structure Wrapper (U : Universe) where
  nullable : Bool
  target : U.Ty
  unwrap : Dyn U → Option (Dyn U)
  unwrapMut : (d : Dyn U) → Option (Slot U (U.Val d.ty))

/-- **The wrapper of a view.** The view of a value of the type `W` is the part of the type `T`
inside it, with a function that replaces it, or nothing if the value is empty. -/
def Wrapper.ofView (nullable : Bool) (W T : U.Ty)
    (view : U.Val W → Option (U.Val T × (U.Val T → U.Val W))) : Wrapper U where
  nullable := nullable
  target := T
  unwrap d := (d.as? W).bind fun v => (view v).map fun part => ⟨T, part.1⟩
  unwrapMut d :=
    if h : d.ty = W then
      (view (cast (congrArg U.Val h) d.val)).map fun part =>
        ⟨T, part.1, fun x => cast (congrArg U.Val h.symm) (part.2 x)⟩
    else none

/-! ### Types -/

/-- What a type is made of. -/
inductive Shape (U : Universe) where
  | leaf
  | composite (table : MemberTable (Member U))
  | wrapper (w : Wrapper U)

/-- **The description of a type.** -/
structure TypeInfo (U : Universe) where
  id : U.Ty
  shape : Shape U

namespace TypeInfo

/-- A type without members. -/
def leaf (t : U.Ty) : TypeInfo U := ⟨t, .leaf⟩

/-- A type with the members `ms`, in the order of their declaration. -/
def composite (t : U.Ty) (ms : List (Member U)) : TypeInfo U :=
  ⟨t, .composite (.ofList Member.name ms)⟩

/-- A type that wraps another. -/
def wrapper (t : U.Ty) (w : Wrapper U) : TypeInfo U := ⟨t, .wrapper w⟩

/-- The name of the type. -/
def name (i : TypeInfo U) : String := U.name i.id

/-- The members of a composite. -/
def composite? (i : TypeInfo U) : Option (MemberTable (Member U)) :=
  match i.shape with
  | .composite table => some table
  | _ => none

/-- The wrapper that a type is. -/
def wrapper? (i : TypeInfo U) : Option (Wrapper U) :=
  match i.shape with
  | .wrapper w => some w
  | _ => none

end TypeInfo

end MemberAccess
