import MemberAccess.Objects.Ty
import MemberAccess.Registry.TypeInfo

/-!
# Declarations of types

A declared type stores one value in each of its cells. It is a leaf, a composite of members that
are backed by cells, or a wrapper around its first cell. The declared types are told apart by their
numbers and named after one family.

## Main definitions

* `MemberDeclaration`: a member and the cell that backs it.
* `Declaration`: the cells and the shape of a declared type.
* `Declarations`: the declared types by number, and the name of their family.
-/

namespace MemberAccess

/-- **A declared member.** It is backed by a cell of the declared type `owner`, which need not be
the type that lists it. -/
structure MemberDeclaration where
  name : String
  kind : MemberKind
  accessibility : Accessibility
  owner : Nat
  cell : Nat
  hasGetMut : Bool
  hasSet : Bool
deriving DecidableEq

/-- The shape of a declared type. -/
inductive DeclaredShape where
  | leaf
  | composite (members : List MemberDeclaration)
  | wrapper (nullable : Bool)
deriving DecidableEq

/-- **A declared type.** -/
structure Declaration where
  cells : List Ty
  shape : DeclaredShape
deriving DecidableEq

/-- **The declared types.** The position in the list is the number of the type, and with the number
the name of the family is the name of the type. -/
structure Declarations where
  family : String
  types : List Declaration
deriving DecidableEq

namespace Declarations

/-- The types of the cells of a declared type. A type that is not declared has none. -/
def cells (D : Declarations) (n : Nat) : List Ty :=
  match D.types[n]? with
  | some d => d.cells
  | none => []

/-- The shape of a declared type. A type that is not declared is a leaf. -/
def shape (D : Declarations) (n : Nat) : DeclaredShape :=
  match D.types[n]? with
  | some d => d.shape
  | none => .leaf

/-- Whether a declared type is a wrapper. Only wrappers may be empty. -/
def isWrapper (D : Declarations) (n : Nat) : Bool :=
  match D.shape n with
  | .wrapper _ => true
  | _ => false

end Declarations

end MemberAccess
