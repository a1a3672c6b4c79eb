import MemberAccess.Source.Reader

/-!
# Paths in code

A path is a chain of segments, each a word with or without arguments between `<` and `>`. Arguments
hold types, bounds and constants, whose readers come from a layer below. What is read is given back
as tokens in a fixed form: lifetimes stand before all other arguments.

## Main definitions

* `TypeForm`, `TypeText`: a type that was read, and what may follow it.
* `CodeLayer`: the readers of types, of bounds and of expressions.
* `Argument.arrange`: arguments in their order.
* `PathText`: a path that was read.
* `CodeReader.path`, `CodeReader.key`: the readers of a path and of a key.
-/

namespace MemberAccess.Source

/-! ### What is read -/

/-- **The forms of types,** as far as they matter for what may follow: a name alone, another path,
an object of one trait without a keyword, and all else. -/
inductive TypeForm where
  | name | path | object | other
deriving DecidableEq

/-- **A type that was read.** -/
structure TypeText where
  tokens : List TokenTree
  form : TypeForm

/-- The kinds of bounds. -/
inductive BoundKind where
  | lifetime | capture | trait
deriving DecidableEq

/-- A bound that was read. -/
structure BoundText where
  tokens : List TokenTree
  kind : BoundKind

/-- **A layer of readers:** of types, which may hold a `+` or not; of bounds, which may be captures
or constant or not; and of expressions. -/
structure CodeLayer where
  type : (plus : Bool) → CodeReader TypeText
  bound : (capture constant : Bool) → CodeReader BoundText
  expression : CodeReader (List TokenTree)

/-- An argument of a segment, and whether a comma follows it. -/
structure Argument where
  tokens : List TokenTree
  isLifetime : Bool
  comma : Bool

namespace Argument

/-- The tokens of arguments. A comma is added between two if there is none; `settled` tells that
none is needed in front of the first. -/
def join (settled : Bool) : List Argument → List TokenTree
  | [] => []
  | a :: more =>
    (if settled then [] else symbol ",") ++ a.tokens ++ (if a.comma then symbol "," else []) ++
      join a.comma more

/-- **Arguments in their order:** the lifetimes, then the others. -/
def arrange (args : List Argument) : List TokenTree :=
  join true (args.filter (·.isLifetime) ++ args.filter (!·.isLifetime))

end Argument

/-- A segment of a path. -/
structure SegmentText where
  tokens : List TokenTree
  plain : Bool

/-- **A path that was read.** -/
structure PathText where
  leading : Bool
  segments : List SegmentText

namespace PathText

/-- The tokens of segments, with `::` between them. -/
def joined : List SegmentText → List TokenTree
  | [] => []
  | [s] => s.tokens
  | s :: more => s.tokens ++ symbol "::" ++ joined more

/-- The tokens of the path. -/
def tokens (p : PathText) : List TokenTree :=
  (if p.leading then symbol "::" else []) ++ joined p.segments

/-- Whether the path is one segment alone. -/
def isName (p : PathText) : Bool :=
  !p.leading && p.segments.length = 1

/-- Whether no segment has arguments. -/
def isPlain (p : PathText) : Bool :=
  p.segments.all (·.plain)

/-- Whether the last segment has no arguments. -/
def endsPlain (p : PathText) : Bool :=
  p.segments.getLast?.all (·.plain)

end PathText

namespace CodeReader

/-! ### Constants -/

/-- Whether a token is a number. -/
def isNumber : TokenTree → Bool
  | .literal text => text.toList.head?.any Digits.isDigit
  | _ => false

/-- Whether a literal stands here: a truth value and a negative number are literals as well. -/
def seesLiteral : CodeReader Bool := do
  match ← ahead with
  | .literal _ :: _ => return true
  | .word v :: _ => return v = "true" || v = "false"
  | .mark '-' _ :: t :: _ => return isNumber t
  | _ => return false

/-- Whether a constant stands here: a literal or a block. -/
def seesConstant : CodeReader Bool :=
  return (← seesLiteral) || (← seesGroup .curly)

/-- Reads a literal or a block. A negative number becomes one literal. -/
def constant : CodeReader (List TokenTree) := do
  match ← ahead with
  | .mark '-' _ :: .literal text :: ts => goTo ts; return [.literal ("-" ++ text)]
  | .group b content :: ts => goTo ts; return [.group b (respaced 0 content)]
  | t :: ts => goTo ts; return [t]
  | [] => want .expression

/-! ### Arguments -/

/-- Reads bounds with `+` between them, up to one of the operators `stops`. -/
def boundsUntil (stops : List String) (below : CodeLayer) : CodeReader (List TokenTree) :=
  gathered do
    if ← stops.anyM sees then return ([], false)
    let b ← below.bound false true
    if ← sees "+" then return (b.tokens ++ (← mark "+"), true)
    return (b.tokens, false)

/-- Reads an argument, and tells whether it is a lifetime. A name may be bound to a type or a
constant, or restricted by bounds. -/
def argument (below : CodeLayer) : CodeReader (List TokenTree × Bool) := do
  let after := (← ahead).tail
  if (← seesLifetime) && (afterMarks? ['+'] after).isNone then return (← lifetime, true)
  if ← seesConstant then return (← constant, false)
  let t ← below.type true
  if t.form = .name then
    if ← sees "=" then
      let equals ← mark "="
      if ← seesConstant then return (t.tokens ++ equals ++ (← constant), false)
      return (t.tokens ++ equals ++ (← below.type true).tokens, false)
    if ← sees ":" then
      return (t.tokens ++ (← mark ":") ++ (← boundsUntil [",", ">"] below), false)
  return (t.tokens, false)

/-- Reads arguments between `<` and `>`, with `::` in front of them or not. -/
def arguments (below : CodeLayer) : CodeReader (List TokenTree) := do
  let front := (← markIf "::") ++ (← mark "<")
  let args ← repeated do
    if ← sees ">" then return (none, false)
    let (tokens, isLifetime) ← argument below
    if ← sees ">" then return (some (Argument.mk tokens isLifetime false), false)
    let _ ← mark ","
    return (some (Argument.mk tokens isLifetime true), true)
  return front ++ Argument.arrange (args.filterMap id) ++ (← mark ">")

/-! ### Paths -/

/-- The keywords that are segments, and never have arguments. -/
def bareSegments : List String :=
  ["super", "self", "crate", "try"]

/-- Whether arguments stand here. In an expression they need `::` in front of them. -/
def seesArguments (inExpression : Bool) : CodeReader Bool := do
  let less ← sees "<"
  let compared ← sees "<="
  let colons ← sees "::"
  let after := (← ahead).drop 2
  return !inExpression && less && !compared || colons && (afterMarks? ['<'] after).isSome

/-- Reads a segment. -/
def pathSegment (inExpression : Bool) (below : CodeLayer) : CodeReader SegmentText := do
  let bare ← bareSegments.anyM seesWord
  let name ← if bare || (← seesWord "Self") then segment else identifier
  if !bare && (← seesArguments inExpression) then
    return ⟨.word name :: (← arguments below), false⟩
  return ⟨[.word name], true⟩

/-- Reads the further segments of a path. A group in round brackets ends it, also after `::`. -/
def pathSegments (inExpression : Bool) (below : CodeLayer) : CodeReader (List SegmentText) := do
  let more ← repeated do
    let called := ((← ahead).drop 2).head?.any (·.isGroup .round)
    if !(← sees "::") || called then return (none, false)
    let _ ← mark "::"
    return (some (← pathSegment inExpression below), true)
  return more.filterMap id

/-- **Reads a path.** -/
def path (inExpression : Bool) (below : CodeLayer) : CodeReader PathText := do
  let leading ← markIf "::"
  let first ← pathSegment inExpression below
  return ⟨!leading.isEmpty, first :: (← pathSegments inExpression below)⟩

/-- Reads a path that begins at a type: `<T>::a` or `<T as p>::a`. -/
def qualifiedPath (inExpression : Bool) (below : CodeLayer) : CodeReader (List TokenTree) := do
  let front ← mark "<"
  let type ← below.type true
  let trait ← if ← seesWord "as" then
      pure ((← word "as") ++ (← path false below).tokens)
    else pure []
  let close ← mark ">"
  let colons ← mark "::"
  let segments ← gathered do
    let s ← pathSegment inExpression below
    if ← sees "::" then return (s.tokens ++ (← mark "::"), true)
    return (s.tokens, false)
  return front ++ type.tokens ++ trait ++ close ++ colons ++ segments

/-- Reads a key, a path of any words, and gives the word that it is. A key of several segments is
no word. -/
def key : CodeReader (Option String) := do
  let leading ← markIf "::"
  let first ← match ← ahead with
    | .word w :: ts => goTo ts; pure w
    | [] => want .item
    | _ => if ← seesLiteral then reject .literalKey else reject .strangeKey
  let further ← gathered do
    if ← sees "::" then return ((← mark "::") ++ [.word (← segment)], true)
    return ([], false)
  return if leading.isEmpty && further.isEmpty then some first else none

end CodeReader

end MemberAccess.Source
