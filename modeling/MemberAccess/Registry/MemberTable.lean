/-!
# Tables of members

The members of a type are listed in the order of their declaration and looked up by name. The
positions of the names are kept in an index that is filled in that order, so that of two members
of one name the later is found.

## Main definitions

* `NameIndex`: positions by name.
* `MemberTable`: a list of members with its index.
* `MemberTable.index?`, `MemberTable.find?`: look-up by name.
* `MemberTable.at?`: look-up by position.
-/

namespace MemberAccess

/-! ### Positions by name -/

/-- **Positions by name.** No name occurs twice. -/
structure NameIndex where
  entries : List (String × Nat)

namespace NameIndex

/-- The index without names. -/
def empty : NameIndex := ⟨[]⟩

/-- The position of a name. -/
def get? (ix : NameIndex) (name : String) : Option Nat :=
  (ix.entries.find? (·.1 = name)).map (·.2)

/-- Gives a name a position, in place of the one it had. -/
def insert (ix : NameIndex) (name : String) (position : Nat) : NameIndex :=
  ⟨(name, position) :: ix.entries.filter (·.1 ≠ name)⟩

/-- Inserts names with consecutive positions from `position` on. -/
def insertAll (ix : NameIndex) (position : Nat) : List String → NameIndex
  | [] => ix
  | name :: more => insertAll (ix.insert name position) (position + 1) more

end NameIndex

/-! ### Members -/

/-- **A table of members.** -/
structure MemberTable (α : Type) where
  members : List α
  names : List String
  index : NameIndex

namespace MemberTable

variable {α : Type}

/-- The table of a list of members whose names `name` tells. -/
def ofList (name : α → String) (members : List α) : MemberTable α :=
  let names := members.map name
  ⟨members, names, NameIndex.empty.insertAll 0 names⟩

/-- The number of members. -/
def size (t : MemberTable α) : Nat := t.members.length

/-- The member at a position of the declaration. -/
def at? (t : MemberTable α) (position : Nat) : Option α := t.members[position]?

/-- The position of a name: of the last member that bears it. -/
def index? (t : MemberTable α) (name : String) : Option Nat := t.index.get? name

/-- The member found under a name. -/
def find? (t : MemberTable α) (name : String) : Option α := (t.index? name).bind t.at?

end MemberTable

end MemberAccess
