import MemberAccess.Derive.Error
import MemberAccess.Registry.TypeInfo
import MemberAccess.Source.Type

/-!
# Items of attributes

The attribute `access` holds a list of items between commas: words, assignments and nested lists.
Items are read from left to right. Reading stops at the first fault, but what was read before keeps
its meaning, since a contradiction among the items there is reported first. So a list is what was
read of it, together with the fault that ended the reading.

## Main definitions

* `ItemList`: what is read of a list of items.
* `FieldItem`, `PropertyItem`: the items of fields and of properties.
* `FieldItem.read`, `PropertyItem.read`, `PropertyItem.readList`: how an item is read after its key.
* `ItemList.ofAttribute?`: the items of an attribute.
-/

namespace MemberAccess

open Source

/-! ### Items -/

/-- **What is read of a list of items:** those in front of the first fault, and the fault. -/
structure ItemList (α : Type) where
  items : List α
  fault : Option DeriveError
deriving DecidableEq

/-- **An item of a field.** -/
inductive FieldItem where
  | skip
  | readonly
  | rename (name : String)
  | visibility (accessibility : Accessibility)
deriving DecidableEq

/-- **An item of a property.** The name keeps the literal that it was written as, and the type is
its text. -/
inductive PropertyItem where
  | name (literal : StringLiteral)
  | type (text : String)
  | get (method : String)
  | getMut (method : String)
  | set (method : String)
  | setVisibility (accessibility : Accessibility)
deriving DecidableEq

/-! ### Readers -/

/-- A reader of code that may also refuse what the code says. -/
abbrev ItemReader (α : Type) := StateT Cursor (Except DeriveError) α

namespace ItemReader

variable {α : Type}

/-- A reader of code as a reader of items. -/
def ofCode (r : CodeReader α) : ItemReader α := fun c =>
  match r c with
  | .error fault => .error (.code fault)
  | .ok read => .ok read

/-- Reads `=` and a value. -/
def assigned (value : CodeReader α) : ItemReader α :=
  ofCode (CodeReader.mark "=" *> value)

/-- Reads `=` and a string that names an accessibility. -/
def assignedAccessibility : ItemReader Accessibility := do
  let literal ← assigned CodeReader.stringLiteral
  if literal.value = "public" then return .isPublic
  else if literal.value = "non_public" then return .nonPublic
  else throw .unknownVisibility

/-- **Reads items up to the end of a group.** There is at least one, and a comma may follow the
last. `item` reads what follows a key. -/
def list (item : Option String → ItemReader α) (c : Cursor) : ItemList α × Cursor :=
  match (ofCode CodeReader.key >>= item) c with
  | .error e => (⟨[], some e⟩, c)
  | .ok (a, after) =>
    if after.rest.isEmpty then (⟨[a], none⟩, after)
    else
      match afterMarks? [','] after.rest with
      | none => (⟨[a], some (.code (.wantedMark ","))⟩, after)
      | some ts =>
        if ts.length < c.rest.length ∧ ts.isEmpty = false then
          let later := list item ⟨ts, after.leftOver⟩
          (⟨a :: later.1.items, later.1.fault⟩, later.2)
        else (⟨[a], none⟩, ⟨ts, after.leftOver⟩)
termination_by c.rest.length
decreasing_by rename_i h; exact h.1

/-- Reads a list of items between round brackets. A fault in it is part of what is read. -/
def nestedList (item : Option String → ItemReader α) : ItemReader (ItemList α) := fun c =>
  match c.rest with
  | .group .round content :: ts =>
    let read := list item ⟨content, c.leftOver⟩
    .ok (read.1, ⟨ts, read.2.leftOver⟩)
  | ts => .error (.code (.wanted (.group .round) ts.isEmpty))

end ItemReader

/-! ### Items by their keys -/

/-- Reads an item of a field after its key. -/
def FieldItem.read : (key : Option String) → ItemReader FieldItem
  | some "skip" => return .skip
  | some "readonly" => return .readonly
  | some "rename" => return .rename (← ItemReader.assigned CodeReader.stringLiteral).value
  | some "vis" => return .visibility (← ItemReader.assignedAccessibility)
  | _ => throw (.unsupported .field)

namespace PropertyItem

/-- Reads an item of a property after its key. -/
def read : (key : Option String) → ItemReader PropertyItem
  | some "name" => return .name (← ItemReader.assigned CodeReader.stringLiteral)
  | some "ty" => return .type (← ItemReader.assigned CodeReader.typeText)
  | some "get" => return .get (← ItemReader.assigned CodeReader.identifier)
  | some "get_mut" => return .getMut (← ItemReader.assigned CodeReader.identifier)
  | some "set" => return .set (← ItemReader.assigned CodeReader.identifier)
  | some "set_vis" => return .setVisibility (← ItemReader.assignedAccessibility)
  | _ => throw (.unsupported .property)

/-- Reads an item of a type after its key: a property, which is a list of items. -/
def readList : (key : Option String) → ItemReader (ItemList PropertyItem)
  | some "property" => ItemReader.nestedList read
  | _ => throw (.unsupported .type)

end PropertyItem

/-! ### Attributes -/

namespace ItemList

variable {α : Type}

/-- The items that tokens spell. A group whose content was not read as a whole is a fault, behind
all others. -/
def ofTokens (item : Option String → ItemReader α) (ts : List TokenTree) : ItemList α :=
  if ts.isEmpty then ⟨[], none⟩
  else
    let read := ItemReader.list item ⟨ts, none⟩
    ⟨read.1.items, read.1.fault.or (read.2.leftOver.map fun b => .code (.leftOver b))⟩

/-- **The items of an attribute,** given what stands between its square brackets, if it is the
attribute `access`. -/
def ofAttribute? (item : Option String → ItemReader α) : List TokenTree → Option (ItemList α)
  | [.word "access"] => some ⟨[], some .missingArguments⟩
  | .word "access" :: .group _ content :: _ => some (ofTokens item content)
  | .word "access" :: .mark '=' _ :: _ => some ⟨[], some .assignedArguments⟩
  | _ => none

end ItemList

end MemberAccess
