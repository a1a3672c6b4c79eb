import MemberAccess.Derive.Item

/-!
# What attributes say

The items of a field say whether it is a member, under which name, and who may write it; those of a
type declare properties. All attributes of a declaration are read as one list, from left to right,
and the first contradiction or fault is reported. What may be said once only is said once in all of
them.

## Main definitions

* `ItemList.fold`: what the items of a list make of a state.
* `FieldAttributes.ofAttributes`: what the attributes of a field say.
* `PropertyDeclaration.ofItems`: a property.
* `propertiesOf`: the properties that the attributes of a type declare.
-/

namespace MemberAccess

open Source

/-! ### Reading in order -/

/-- Stores a value that may be given only once. -/
def setOnce {α : Type} (slot : Option α) (value : α) : Except DeriveError (Option α) :=
  if slot.isSome then .error .duplicateAttribute else .ok (some value)

/-- **What the items of a list make of a state,** one after the other, unless the list has a
fault. -/
def ItemList.fold {α σ : Type} (step : σ → α → Except DeriveError σ) (state : σ)
    (l : ItemList α) : Except DeriveError σ :=
  match l.items.foldlM step state with
  | .error e => .error e
  | .ok after =>
    match l.fault with
    | some e => .error e
    | none => .ok after

/-- What the attributes of a declaration make of a state, one after the other. -/
def foldAttributes {α σ : Type} (step : σ → α → Except DeriveError σ) (state : σ)
    (attributes : List (ItemList α)) : Except DeriveError σ :=
  attributes.foldlM (ItemList.fold step) state

/-! ### Attributes of fields -/

/-- **What the attributes of a field say:** whether it is left out, whether it has no setter, its
name and its accessibility, if they are not those of the field. -/
structure FieldAttributes where
  skip : Bool
  readonly : Bool
  rename : Option String
  visibility : Option Accessibility
deriving DecidableEq

namespace FieldAttributes

/-- What no attributes say. -/
def none : FieldAttributes := ⟨false, false, .none, .none⟩

/-- What an item adds. -/
def step (a : FieldAttributes) : FieldItem → Except DeriveError FieldAttributes
  | .skip => .ok { a with skip := true }
  | .readonly => .ok { a with readonly := true }
  | .rename name => (setOnce a.rename name).map fun slot => { a with rename := slot }
  | .visibility v => (setOnce a.visibility v).map fun slot => { a with visibility := slot }

/-- **What the attributes of a field say.** -/
def ofAttributes (attributes : List (ItemList FieldItem)) : Except DeriveError FieldAttributes :=
  foldAttributes step none attributes

end FieldAttributes

/-! ### Properties -/

/-- **A declared property:** its name and type, the methods behind it, and who may use its
setter. -/
structure PropertyDeclaration where
  name : StringLiteral
  type : String
  get : String
  getMut : Option String
  set : Option String
  setVisibility : Accessibility
deriving DecidableEq

/-- What the items of a property have said so far. -/
structure PropertyItems where
  name : Option StringLiteral
  type : Option String
  get : Option String
  getMut : Option String
  set : Option String
  setVisibility : Option Accessibility
deriving DecidableEq

namespace PropertyItems

/-- What no items say. -/
def none : PropertyItems := ⟨.none, .none, .none, .none, .none, .none⟩

/-- What an item adds. -/
def step (p : PropertyItems) : PropertyItem → Except DeriveError PropertyItems
  | .name l => (setOnce p.name l).map fun slot => { p with name := slot }
  | .type t => (setOnce p.type t).map fun slot => { p with type := slot }
  | .get m => (setOnce p.get m).map fun slot => { p with get := slot }
  | .getMut m => (setOnce p.getMut m).map fun slot => { p with getMut := slot }
  | .set m => (setOnce p.set m).map fun slot => { p with set := slot }
  | .setVisibility v => (setOnce p.setVisibility v).map fun slot => { p with setVisibility := slot }

/-- The property that the items declare. A name, a type and a getter are required, and the setter
is public unless the items say otherwise. -/
def declaration (p : PropertyItems) : Except DeriveError PropertyDeclaration :=
  match p.name, p.type, p.get with
  | .none, _, _ => .error (.missingKey "name")
  | some _, .none, _ => .error (.missingKey "ty")
  | some _, some _, .none => .error (.missingKey "get")
  | some name, some type, some get =>
    .ok ⟨name, type, get, p.getMut, p.set, p.setVisibility.getD .isPublic⟩

end PropertyItems

/-- **The property that items declare.** -/
def PropertyDeclaration.ofItems (l : ItemList PropertyItem) :
    Except DeriveError PropertyDeclaration :=
  match l.fold PropertyItems.step .none with
  | .error e => .error e
  | .ok p => p.declaration

/-- **The properties that the attributes of a type declare,** in order. -/
def propertiesOf (attributes : List (ItemList (ItemList PropertyItem))) :
    Except DeriveError (List PropertyDeclaration) :=
  foldAttributes (fun ps l => (PropertyDeclaration.ofItems l).map fun p => ps ++ [p]) [] attributes

end MemberAccess
