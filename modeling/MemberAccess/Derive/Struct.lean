import MemberAccess.Derive.Attribute
import MemberAccess.Derive.Declaration
import MemberAccess.Manifest.Cache

/-!
# Derived structs

A struct with named fields declares its members: the fields that are not left out, in order, and
then the properties of its attributes. No two members bear the same name. The description of the
struct is generated code, which names its items by the path under which the crate reaches them.

## Main definitions

* `DerivedStruct`: a struct whose members are known.
* `TypeDeclaration.derive`: the derived struct of a declaration, or why there is none.
* `expandAll`: the derived structs of a crate, whose manifest is read at most once.
* `DerivedMember`, `DerivedStruct.members`: the members of a derived struct.
-/

namespace MemberAccess

open Source

/-! ### Members -/

/-- **A field that is a member.** -/
structure DerivedField where
  ident : String
  type : String
  name : String
  accessibility : Accessibility
  readonly : Bool
deriving DecidableEq

/-- The member that a field is, unless it is left out. -/
def FieldDeclaration.derived? (f : FieldDeclaration) (a : FieldAttributes) : Option DerivedField :=
  if a.skip then none
  else
    some {
      ident := f.ident
      type := f.type
      name := a.rename.getD (plainName f.ident)
      accessibility := a.visibility.getD f.accessibility
      readonly := a.readonly }

/-- **The fields that are members,** in order. The attributes of every field are read, also of
those that are left out. -/
def derivedFields : List FieldDeclaration → Except DeriveError (List DerivedField)
  | [] => .ok []
  | f :: more => do
    let a ← FieldAttributes.ofAttributes f.attributes
    let rest ← derivedFields more
    return (f.derived? a).toList ++ rest

/-- The first name that occurred before, in front of it or in `seen`. -/
def repeatedName? (seen : List String) : List String → Option String
  | [] => none
  | name :: more => if name ∈ seen then some name else repeatedName? (name :: seen) more

/-- **A struct whose members are known,** with the path to the items that its code names. -/
structure DerivedStruct where
  ident : String
  cratePath : CratePath
  fields : List DerivedField
  properties : List PropertyDeclaration
deriving DecidableEq

/-! ### Deriving -/

/-- Why there is no derived struct. -/
inductive DeriveRefusal where
  | declaration (e : DeriveError)
  | cratePath (e : InvalidCratePath)
deriving DecidableEq

/-- The message of a refusal. -/
def DeriveRefusal.message : DeriveRefusal → String
  | declaration e => e.message
  | cratePath e => e.message

/-- The package that generated code names. -/
def accessPackage : String := "vc_access"

namespace TypeDeclaration

/-- The members that a declaration spells, before their names are compared. -/
def spelled (d : TypeDeclaration) :
    Except DeriveError (List DerivedField × List PropertyDeclaration) :=
  if d.isGeneric then .error .generic
  else
    match d.body with
    | .unnamed kind => .error (.unnamed kind)
    | .named declared => do
      let fields ← derivedFields declared
      let properties ← propertiesOf d.attributes
      return (fields, properties)

/-- **The derived struct of a declaration.** What the declaration spells comes first, then the path
to the crate, then the names. -/
def derive (d : TypeDeclaration) (cratePath : Except InvalidCratePath CratePath) :
    Except DeriveRefusal DerivedStruct :=
  match d.spelled with
  | .error e => .error (.declaration e)
  | .ok parts =>
    match cratePath with
    | .error e => .error (.cratePath e)
    | .ok path =>
      match repeatedName? [] (parts.1.map (·.name) ++ parts.2.map (·.name.value)) with
      | some name => .error (.declaration (.duplicateName name))
      | none => .ok ⟨d.ident, path, parts.1, parts.2⟩

end TypeDeclaration

/-- **The derived structs of a crate.** The manifest of the crate is at `path` and shows the
modification time `observed`; `read` is what it holds. -/
def expandAll (path : String) (observed : Nat) (read : Manifest) (c : ManifestCache) :
    List TypeDeclaration → List (Except DeriveRefusal DerivedStruct)
  | [] => []
  | d :: more =>
    let used := c.shared path observed read (·.cratePath accessPackage)
    d.derive used.1 :: expandAll path observed read used.2 more

/-! ### The members of a derived struct -/

/-- What is behind a derived member: a field of the struct, or methods. -/
inductive MemberBacking where
  | field (ident : String) (readonly : Bool)
  | methods (get : String) (getMut set : Option String)
deriving DecidableEq

/-- **A member of a derived struct.** -/
structure DerivedMember where
  name : StringLiteral
  type : String
  accessibility : Accessibility
  backing : MemberBacking
deriving DecidableEq

namespace DerivedMember

/-- The kind of the member. -/
def kind (m : DerivedMember) : MemberKind :=
  match m.backing with
  | .field _ _ => .field
  | .methods _ _ _ => .property

/-- Whether the member can be borrowed mutably. Every field can. -/
def isTraversable (m : DerivedMember) : Bool :=
  match m.backing with
  | .field _ _ => true
  | .methods _ getMut _ => getMut.isSome

/-- Whether the member has a setter. -/
def isWritable (m : DerivedMember) : Bool :=
  match m.backing with
  | .field _ readonly => !readonly
  | .methods _ _ set => set.isSome

end DerivedMember

/-- The member that a field is. -/
def DerivedField.member (f : DerivedField) : DerivedMember :=
  ⟨.ofValue f.name, f.type, f.accessibility, .field f.ident f.readonly⟩

/-- The member that a property is. -/
def PropertyDeclaration.member (p : PropertyDeclaration) : DerivedMember :=
  ⟨p.name, p.type, p.setVisibility, .methods p.get p.getMut p.set⟩

namespace DerivedStruct

/-- **The members of a derived struct:** its fields, then its properties. -/
def members (s : DerivedStruct) : List DerivedMember :=
  s.fields.map (·.member) ++ s.properties.map (·.member)

end DerivedStruct

end MemberAccess
