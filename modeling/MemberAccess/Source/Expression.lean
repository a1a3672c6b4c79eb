import MemberAccess.Source.Path

/-!
# Expressions in code

The length of an array is an expression. Only its tokens are wanted, so operators are not ranked:
an expression is a run of operands with operators between them. What begins with a keyword that
opens a statement is taken as it stands, up to the end of the group.

## Main definitions

* `CodeReader.operand`: an operand with the operators before and after it.
* `CodeReader.expression`: the reader of an expression.
-/

namespace MemberAccess.Source.CodeReader

/-- The operators between operands, the longest first. -/
def binaryOperators : List String :=
  ["<<=", ">>=", "..=", "&&", "||", "<<", ">>", "==", "!=", "<=", ">=", "+=", "-=", "*=", "/=",
    "%=", "^=", "&=", "|=", "..", "+", "-", "*", "/", "%", "^", "&", "|", "<", ">", "="]

/-- The operators before an operand. -/
def unaryOperators : List String :=
  ["&", "*", "!", "-"]

/-- The words that open an expression which is taken as it stands. -/
def openers : List String :=
  ["if", "match", "while", "for", "loop", "unsafe", "async", "move", "static", "const", "break",
    "continue", "return", "become", "let"]

/-- The first of some operators that stands here. -/
def operatorAmong (operators : List String) : CodeReader (List TokenTree) := do
  for s in operators do
    if ← sees s then return ← mark s
  return []

/-- Reads all that is left of the group, spaced anew. -/
def remainder : CodeReader (List TokenTree) := do
  let ts ← ahead
  goTo []
  return respaced 0 ts

/-- Reads expressions between commas, or two that a semicolon parts. -/
def elements (below : CodeLayer) : CodeReader (List TokenTree) :=
  gathered do
    if ← atEnd then return ([], false)
    let e ← below.expression
    if ← sees ";" then return (e ++ (← mark ";") ++ (← below.expression), false)
    if ← atEnd then return (e, false)
    return (e ++ (← mark ","), true)

/-- Reads a path, with the arguments of a macro or the fields of a struct. -/
def pathExpression (below : CodeLayer) : CodeReader (List TokenTree) := do
  if ← sees "<" then qualifiedPath true below
  else
    let p ← path true below
    if (← sees "!") && !(← sees "!=") then return p.tokens ++ (← mark "!") ++ (← anyGroup)
    if ← seesGroup .curly then
      return p.tokens ++ (← wrapped .curly remainder)
    return p.tokens

/-- Whether a path stands here. -/
def seesPath : CodeReader Bool := do
  let named ← seesIdentifier
  let keyed ← ["self", "Self", "super", "crate"].anyM seesWord
  return named || keyed || (← sees "::") || (← sees "<")

/-- Reads an operand without what is applied to it. -/
def atom (below : CodeLayer) : CodeReader (List TokenTree) := do
  if ← seesLiteral then constant
  else if ← seesPath then pathExpression below
  else if ← seesGroup .round then wrapped .round (commaSeparated below.expression)
  else if ← seesGroup .square then wrapped .square (elements below)
  else if ← seesGroup .curly then wrapped .curly remainder
  else if ← seesWord "_" then word "_"
  else if ← openers.anyM seesWord then remainder
  else if (← sees "|") || (← seesLifetime) then remainder
  else want .expression

/-- Reads the member after a point: a name with or without arguments, or a number. -/
def member (below : CodeLayer) : CodeReader (List TokenTree) := do
  match ← ahead with
  | .literal text :: ts => goTo ts; return [.literal text]
  | .word _ :: _ =>
    let name ← segment
    if ← sees "::" then return .word name :: (← arguments below)
    return [.word name]
  | _ => want .memberName

/-- Reads what is applied to an operand: calls, indices, members, casts and questions. -/
def applications (below : CodeLayer) : CodeReader (List TokenTree) :=
  gathered do
    if ← seesGroup .round then
      return (← wrapped .round (commaSeparated below.expression), true)
    if ← seesGroup .square then return (← wrapped .square below.expression, true)
    if ← sees "?" then return (← mark "?", true)
    if (← sees ".") && !(← sees "..") then return ((← mark ".") ++ (← member below), true)
    if ← seesWord "as" then return ((← word "as") ++ (← below.type false).tokens, true)
    return ([], false)

/-- Reads an operand, with the operators in front of it and with what is applied to it. -/
def operand (below : CodeLayer) : CodeReader (List TokenTree) := do
  let before ← gathered do
    let op ← operatorAmong unaryOperators
    if op.isEmpty then return ([], false)
    return (op ++ (← wordIf "mut"), true)
  return before ++ (← atom below) ++ (← applications below)

/-- **Reads an expression.** A range may have no end. -/
def expression (below : CodeLayer) : CodeReader (List TokenTree) := do
  let range ← operatorAmong ["..=", ".."]
  if !range.isEmpty && (← atEnd) then return range
  return range ++ (← gathered do
    let left ← operand below
    let op ← operatorAmong binaryOperators
    if op.isEmpty then return (left, false)
    let endless := (← atEnd) && (afterMarks? ['.', '.'] op).isSome
    return (left ++ op, !endless))

end MemberAccess.Source.CodeReader
