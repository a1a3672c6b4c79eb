import MemberAccess.Derive.Item

/-!
# Declarations of types

A declaration is a struct, an enumeration or a union as it is written in code. Of a struct with
named fields all is read that matters for its members; of the others only their kind. What is wrong
inside an attribute does not keep a declaration from being read.

## Main definitions

* `FieldDeclaration`, `TypeBody`, `TypeDeclaration`: declarations.
* `Declared.type`: the reader of a declaration.
* `TypeDeclaration.ofCode?`: the declaration that a text is.
-/

namespace MemberAccess

open Source

/-- **A field as it is declared.** The identifier may be raw; the accessibility is that of the
visibility in front of it. -/
structure FieldDeclaration where
  ident : String
  accessibility : Accessibility
  type : String
  attributes : List (ItemList FieldItem)

/-- The bodies of declarations. -/
inductive TypeBody where
  | named (fields : List FieldDeclaration)
  | unnamed (kind : UnnamedKind)

/-- **A type as it is declared.** It is generic if it has parameters. -/
structure TypeDeclaration where
  ident : String
  isGeneric : Bool
  attributes : List (ItemList (ItemList PropertyItem))
  body : TypeBody

/-- An identifier without the mark of a raw one. -/
def plainName (ident : String) : String :=
  match ident.toList with
  | 'r' :: '#' :: name => String.ofList name
  | _ => ident

namespace Declared

/-! ### Parts of declarations -/

/-- Reads attributes, and gives the items of those that are `access`. -/
def attributes {α : Type} (item : Option String → ItemReader α) :
    CodeReader (List (ItemList α)) := do
  let all ← CodeReader.repeated do
    if ← CodeReader.sees "#" then
      let _ ← CodeReader.mark "#"
      let content ← CodeReader.inside .square do
        let ts ← CodeReader.ahead
        CodeReader.goTo []
        return ts
      return (ItemList.ofAttribute? item content, true)
    return (none, false)
  return all.filterMap id

/-- Whether the content of a group restricts a visibility: one word for a module, or a path. -/
def restricts : List TokenTree → Bool
  | [.word w] => ["crate", "self", "super"].contains w
  | .word w :: _ => w = "in"
  | _ => false

/-- Reads a visibility. Only `pub` without a restriction is public. -/
def accessibility : CodeReader Accessibility := do
  if ← CodeReader.seesWord "pub" then
    let _ ← CodeReader.word "pub"
    match ← CodeReader.ahead with
    | .group .round content :: ts =>
      if restricts content then
        CodeReader.goTo ts
        return .nonPublic
      return .isPublic
    | _ => return .isPublic
  return .nonPublic

/-- Reads a field. Its name may be an underscore. -/
def field : CodeReader FieldDeclaration := do
  let items ← attributes FieldItem.read
  let implied ← accessibility
  let ident ← if ← CodeReader.seesWord "_" then CodeReader.segment else CodeReader.identifier
  let _ ← CodeReader.mark ":"
  return ⟨ident, implied, ← CodeReader.typeText, items⟩

/-- Reads fields between commas, up to the end of the group. -/
def fields : CodeReader (List FieldDeclaration) := do
  let all ← CodeReader.repeated do
    if ← CodeReader.atEnd then return (none, false)
    let f ← field
    if ← CodeReader.atEnd then return (some f, false)
    let _ ← CodeReader.mark ","
    return (some f, true)
  return all.filterMap id

/-- What follows parameters, of which `depth` more `<` than `>` were read. The arrow of a function
is no bracket. -/
def afterParameters (depth : Nat) : List TokenTree → List TokenTree
  | [] => []
  | .mark '-' true :: .mark '>' _ :: ts => afterParameters depth ts
  | .mark '<' _ :: ts => afterParameters (depth + 1) ts
  | .mark '>' _ :: ts => if depth = 0 then ts else afterParameters (depth - 1) ts
  | _ :: ts => afterParameters depth ts

/-- Reads parameters, and tells whether there are any. -/
def parameters : CodeReader Bool := do
  if ← CodeReader.sees "<" then
    let _ ← CodeReader.mark "<"
    let generic := !(← CodeReader.sees ">")
    CodeReader.goTo (afterParameters 0 (← CodeReader.ahead))
    return generic
  return false

/-- Reads the body of a struct after its parameters. Conditions may stand in front of it; it is the
last token of the declaration unless the fields have no names. -/
def structBody : CodeReader TypeBody := do
  let ts ← CodeReader.ahead
  if ts.head?.any (·.isGroup .round) then
    CodeReader.goTo []
    return .unnamed .tuple
  if ts.length ≠ 1 && !(← CodeReader.seesWord "where") then CodeReader.want (.keyword "where")
  match ts.getLast? with
  | some (.group .curly content) =>
    CodeReader.goTo [.group .curly content]
    return .named (← CodeReader.inside .curly fields)
  | some (.mark ';' _) =>
    CodeReader.goTo []
    return .unnamed .unit
  | _ => CodeReader.want (.group .curly)

/-- **Reads a declaration.** -/
def type : CodeReader TypeDeclaration := do
  let properties ← attributes PropertyItem.readList
  let _ ← accessibility
  if ← CodeReader.seesWord "struct" then
    let _ ← CodeReader.word "struct"
    let ident ← CodeReader.identifier
    let generic ← parameters
    return ⟨ident, generic, properties, ← structBody⟩
  let kind ← if ← CodeReader.seesWord "enum" then pure UnnamedKind.enum else pure UnnamedKind.union
  let _ ← CodeReader.word (if kind = .enum then "enum" else "union")
  let ident ← CodeReader.identifier
  let generic ← parameters
  CodeReader.goTo []
  return ⟨ident, generic, properties, .unnamed kind⟩

end Declared

/-- **The declaration that a text is,** unless it is none. -/
def TypeDeclaration.ofCode? (text : String) : Option TypeDeclaration :=
  match tokens? text with
  | none => none
  | some ts =>
    match Declared.type ⟨ts, none⟩ with
    | .error _ => none
    | .ok (d, c) => if c.rest.isEmpty && c.leftOver.isNone then some d else none

end MemberAccess
