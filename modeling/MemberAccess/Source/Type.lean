import MemberAccess.Source.Expression

/-!
# Types in code

A type is a path, a reference, a pointer, a group of types, a function, an object or a choice of
traits, or one of a few marks. Readers are built from the bottom up, one layer for each level of
nesting, and a type nests no deeper than it has tokens.

## Main definitions

* `CodeReader.bound`, `CodeReader.type`: the readers of a bound and of a type, over a layer below.
* `CodeLayer.next`, `CodeLayer.ofDepth`: the layers.
* `CodeReader.typeText`: the text of a type.
-/

namespace MemberAccess.Source

namespace CodeReader

/-! ### Bounds -/

/-- Reads lifetimes with `+` between them, up to the end of a parameter. -/
def outlived : CodeReader (List TokenTree) :=
  gathered do
    if (← atEnd) || (← [",", ">"].anyM sees) then return ([], false)
    let name ← lifetime
    if ← sees "+" then return (name ++ (← mark "+"), true)
    return (name, false)

/-- Reads a parameter of a binder: a lifetime, a type or a constant, with its bounds. -/
def parameter (below : CodeLayer) : CodeReader (List TokenTree) := do
  let front ← attributes
  if ← seesIdentifier then
    let name := TokenTree.word (← identifier)
    let limits ← if ← sees ":" then
        pure ((← mark ":") ++ (← boundsUntil [",", ">", "="] below))
      else pure []
    if ← sees "=" then
      return front ++ name :: limits ++ (← mark "=") ++ (← below.type true).tokens
    return front ++ name :: limits
  else if ← seesLifetime then
    let name ← lifetime
    if ← sees ":" then return front ++ name ++ (← mark ":") ++ (← outlived)
    return front ++ name
  else if ← seesWord "const" then
    let name := (← word "const") ++ [.word (← identifier)] ++ (← mark ":")
    return front ++ name ++ (← below.type true).tokens
  else want .parameter

/-- Reads the parameters that are bound in front of a type or a trait. -/
def binder (below : CodeLayer) : CodeReader (List TokenTree) := do
  let front := (← word "for") ++ (← mark "<")
  let names ← gathered do
    if ← sees ">" then return ([], false)
    let name ← parameter below
    if ← sees ">" then return (name, false)
    return (name ++ (← mark ","), true)
  return front ++ names ++ (← mark ">")

/-- Reads bound parameters if they stand here. -/
def binderIf (below : CodeLayer) : CodeReader (List TokenTree) := do
  if ← seesWord "for" then binder below else return []

/-- Reads the result of a function, which holds no `+`. -/
def result (below : CodeLayer) : CodeReader (List TokenTree) := do
  if ← sees "->" then return (← mark "->") ++ (← below.type false).tokens
  return []

/-- Reads the mark of a constant bound, which is not allowed everywhere. -/
def constancy (constant : Bool) : CodeReader (List TokenTree) := do
  if ← seesGroup .square then
    let ts ← wrapped .square (word "const")
    if constant then return ts else reject (.misplaced "`[const]`")
  if ← seesWord "const" then
    let ts ← word "const"
    if constant then return ts else reject (.misplaced "`const`")
  return []

/-- Reads a path to a trait. Its last segment may have arguments in round brackets, and then a
result. -/
def traitPath (below : CodeLayer) : CodeReader (List TokenTree) := do
  let p ← path false below
  let called := ((← ahead).drop 2).head?.any (·.isGroup .round)
  if p.endsPlain && ((← seesGroup .round) || (← sees "::") && called) then
    let _ ← markIf "::"
    let args ← wrapped .round (commaSeparated do return (← below.type true).tokens)
    return p.tokens ++ args ++ (← result below)
  return p.tokens

/-- Reads a trait. A `?` in front of it excludes a binder. -/
def trait (constant : Bool) (below : CodeLayer) : CodeReader (List TokenTree) := do
  let outer ← binderIf below
  let kind ← constancy constant
  let question ← markIf "?"
  let inner ← if question.isEmpty || !outer.isEmpty then pure [] else binderIf below
  let p ← traitPath below
  if !question.isEmpty && !(outer ++ inner).isEmpty then reject .binderOfQuestion
  return outer ++ kind ++ question ++ p

/-- Reads the lifetimes and parameters that a choice captures. -/
def capture : CodeReader (List TokenTree) := do
  let front := (← word "use") ++ (← mark "<")
  let names ← gathered do
    if ← sees ">" then return ([], false)
    let name ← if ← seesLifetime then lifetime else
      if ← seesWord "Self" then word "Self" else pure [.word (← identifier)]
    if ← sees ">" then return (name, false)
    return (name ++ (← mark ","), true)
  return front ++ names ++ (← mark ">")

/-- **Reads a bound:** a lifetime, a capture where it is allowed, or a trait. -/
def bound (below : CodeLayer) (captures constant : Bool) : CodeReader BoundText := do
  if ← seesLifetime then return ⟨← lifetime, .lifetime⟩
  if ← seesWord "use" then
    let ts ← capture
    if captures then return ⟨ts, .capture⟩
    else reject (.misplaced "`use<...>` precise capturing syntax")
  if ← seesGroup .round then return ⟨← wrapped .round (trait constant below), .trait⟩
  return ⟨← trait constant below, .trait⟩

/-- Whether a bound stands here, after a `+`. -/
def seesBound (constant : Bool) : CodeReader Bool := do
  let word := match ← ahead with
    | .word _ :: _ => true
    | _ => false
  let operator ← ["::", "?"].anyM sees
  let plain := word || operator || (← seesLifetime) || (← seesGroup .round)
  return plain || constant && (← seesGroup .square)

/-- Reads bounds with `+` between them, where `plus` allows more than one. A `+` may follow the
last. -/
def bounds (below : CodeLayer) (plus captures constant : Bool) : CodeReader (List BoundText) :=
  repeated do
    let b ← bound below captures constant
    if plus && (← sees "+") then
      let ts := b.tokens ++ (← mark "+")
      return (⟨ts, b.kind⟩, ← seesBound constant)
    return (b, false)

/-- The tokens of bounds. -/
def boundTokens (bs : List BoundText) : List TokenTree :=
  bs.flatMap (·.tokens)

/-- Reads the bounds of an object, of which one is a trait at least. -/
def objectBounds (below : CodeLayer) (plus : Bool) : CodeReader (List BoundText) := do
  let bs ← bounds below plus false false
  if bs.any (·.kind = .trait) then return bs else reject .objectWithoutTrait

/-- Reads further bounds after an operator `+`. -/
def furtherBounds (below : CodeLayer) : CodeReader (List TokenTree) :=
  gathered do
    if ← sees "+" then return ((← mark "+") ++ (← bound below false false).tokens, true)
    return ([], false)

/-! ### Functions -/

/-- Whether a name and a colon stand here. -/
def seesNamed : CodeReader Bool := do
  let after := (← ahead).tail
  let named := (← seesIdentifier) || (← seesWord "_") || (← seesWord "self")
  return named && (afterMarks? [':'] after).isSome && (afterMarks? [':', ':'] after).isNone

/-- Reads the parameters of a function. The last may be `...`, and names are optional. -/
def parameters (below : CodeLayer) : CodeReader (List TokenTree) :=
  gathered do
    if ← atEnd then return ([], false)
    let front ← attributes
    let name ← if ← seesNamed then pure (.word (← segment) :: (← mark ":")) else pure []
    if ← sees "..." then
      return (front ++ name ++ (← mark "...") ++ (← markIf ","), false)
    let ts := front ++ name ++ (← below.type true).tokens
    if ← atEnd then return (ts, false)
    return (ts ++ (← mark ","), true)

/-- Reads the type of a function. -/
def function (below : CodeLayer) : CodeReader (List TokenTree) := do
  let front ← wordIf "unsafe"
  let foreign ← wordIf "extern"
  let convention ← match ← ahead with
    | .literal text :: _ =>
      if foreign.isEmpty || (StringLiteral.ofText? text).isNone then pure [] else constant
    | _ => pure []
  let fn ← word "fn"
  let params ← wrapped .round (parameters below)
  return front ++ foreign ++ convention ++ fn ++ params ++ (← result below)

/-! ### Types -/

/-- Reads what stands between round brackets: nothing, one type or several, or an object that
begins with a lifetime or a `?`. The form tells what `+` may follow. -/
def tuple (below : CodeLayer) : CodeReader TypeText := do
  if ← atEnd then return ⟨[], .other⟩
  if ← seesLifetime then return ⟨boundTokens (← objectBounds below true), .other⟩
  if ← sees "?" then return ⟨← trait false below, .object⟩
  let first ← below.type true
  if ← sees "," then
    let comma ← mark ","
    let more ← commaSeparated do return (← below.type true).tokens
    return ⟨first.tokens ++ comma ++ more, .other⟩
  let form := if first.form = .name then .path else first.form
  return ⟨first.tokens, form⟩

/-- Reads a type between round brackets. A path or a single trait there may be the first bound of
an object, and a trait with a `?` always is. -/
def bracketed (below : CodeLayer) (plus : Bool) : CodeReader TypeText := do
  let content := match ← ahead with
    | .group _ ts :: _ => ts
    | _ => []
  let relaxed := (afterMarks? ['?'] content).isSome
  let inner ← inside .round (tuple below)
  let first := [TokenTree.group .round inner.tokens]
  if relaxed || plus && inner.form ≠ .other then
    if ← sees "+" then return ⟨first ++ (← furtherBounds below), .other⟩
    return ⟨first, if relaxed then .object else .other⟩
  return ⟨first, .other⟩

/-- Reads a type that begins with a path: the path, a macro, or an object without a keyword. -/
def ofPath (below : CodeLayer) (lifetimes : List TokenTree) (plus : Bool) :
    CodeReader TypeText := do
  if ← sees "<" then return ⟨lifetimes ++ (← qualifiedPath false below), .other⟩
  let p ← path false below
  if p.isPlain && (← sees "!") && !(← sees "!=") then
    return ⟨p.tokens ++ (← mark "!") ++ (← anyGroup), .other⟩
  let first := lifetimes ++ p.tokens
  if plus && (← sees "+") then
    let plusMark ← mark "+"
    if ← seesBound false then
      let more ← bounds below true false false
      return ⟨first ++ plusMark ++ boundTokens more, .other⟩
    return ⟨first ++ plusMark, .other⟩
  if !lifetimes.isEmpty then return ⟨first, .object⟩
  return ⟨first, if p.isName then .name else .path⟩

/-- Reads an array or a slice between square brackets. -/
def sequence (below : CodeLayer) : CodeReader (List TokenTree) := do
  let element := (← below.type true).tokens
  if ← sees ";" then return element ++ (← mark ";") ++ (← below.expression)
  return element

/-- Reads a pointer. -/
def pointer (below : CodeLayer) : CodeReader (List TokenTree) := do
  let star ← mark "*"
  let kind ← if ← seesWord "const" then word "const"
    else if ← seesWord "mut" then word "mut"
    else want .pointerKind
  return star ++ kind ++ (← below.type false).tokens

/-- Reads a reference. -/
def reference (below : CodeLayer) : CodeReader (List TokenTree) := do
  let front ← mark "&"
  let name ← if ← seesLifetime then lifetime else pure []
  let mutable ← wordIf "mut"
  return front ++ name ++ mutable ++ (← below.type false).tokens

/-- Reads an object with its keyword. -/
def object (below : CodeLayer) (plus : Bool) : CodeReader (List TokenTree) := do
  let front := (← word "dyn") ++ (← markIf "*")
  return front ++ boundTokens (← objectBounds below plus)

/-- Reads a choice, a type of which only bounds are known. -/
def choice (below : CodeLayer) (plus : Bool) : CodeReader (List TokenTree) := do
  let front ← word "impl"
  let bs ← bounds below plus true true
  if bs.any (·.kind = .trait) then return front ++ boundTokens bs else reject .choiceWithoutTrait

/-- Whether a path stands at the front of a type. -/
def seesTypePath : CodeReader Bool := do
  let keyed ← ["super", "self", "Self", "crate"].anyM seesWord
  return (← seesIdentifier) || keyed || (← sees "::") || (← sees "<")

/-- Whether a function stands here. -/
def seesFunction : CodeReader Bool :=
  ["fn", "unsafe", "extern"].anyM seesWord

/-- **Reads a type.** An operator `+` belongs to it if `plus` allows that. -/
def type (below : CodeLayer) (plus : Bool) : CodeReader TypeText := do
  let other (r : CodeReader (List TokenTree)) : CodeReader TypeText := return ⟨← r, .other⟩
  if ← seesWord "for" then
    let lifetimes ← binder below
    if ← seesFunction then return ⟨lifetimes ++ (← function below), .other⟩
    if (← seesTypePath) && !(← sees "::") && !(← sees "<") then
      return ← ofPath below lifetimes plus
    want .typeAfterBinder
  else if ← seesGroup .round then bracketed below plus
  else if ← seesFunction then other (function below)
  else if ← seesTypePath then ofPath below [] plus
  else if ← seesWord "dyn" then other (object below plus)
  else if ← seesGroup .square then other (wrapped .square (sequence below))
  else if ← sees "*" then other (pointer below)
  else if ← sees "&" then other (reference below)
  else if ← sees "!" then other (mark "!")
  else if ← seesWord "impl" then other (choice below plus)
  else if ← seesWord "_" then other (word "_")
  else if ← seesLifetime then
    return ⟨boundTokens (← objectBounds below true), .other⟩
  else want .type

end CodeReader

/-! ### Layers -/

namespace CodeLayer

/-- Below the lowest layer nothing can be read. -/
def bottom : CodeLayer :=
  ⟨fun _ => CodeReader.want .type, fun _ _ => CodeReader.want .identifier,
    CodeReader.want .expression⟩

/-- **The layer over `below`.** -/
def next (below : CodeLayer) : CodeLayer :=
  ⟨CodeReader.type below, CodeReader.bound below, CodeReader.expression below⟩

/-- **The readers that may go `depth` levels down.** -/
def ofDepth : (depth : Nat) → CodeLayer
  | 0 => bottom.next
  | depth + 1 => (ofDepth depth).next

end CodeLayer

/-- **Reads a type, and gives its text.** -/
def CodeReader.typeText : CodeReader String := do
  let t ← (CodeLayer.ofDepth (size (← ahead))).type true
  return render t.tokens

end MemberAccess.Source
