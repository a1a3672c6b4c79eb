/-!
# Tokens of code

Code is a list of tokens: words, lifetimes, literals, marks and groups, where a group holds the
tokens between two brackets. A mark is one character, and an operator of several characters is a
run of marks, each joined to the next.

## Main definitions

* `Bracket`, `TokenTree`: the tokens.
* `render`: the text of tokens, with a space between those that are not joined.
* `symbol`: the marks of an operator.
* `size`: how many tokens there are, at all depths.
-/

namespace MemberAccess.Source

/-! ### Tokens -/

/-- **The brackets** around groups. -/
inductive Bracket where
  | round | square | curly
deriving DecidableEq

/-- **A token.** A word may be raw, a lifetime has its tick and a literal its quotes, as written. A
mark knows whether another mark follows it at once. -/
inductive TokenTree where
  | word (text : String)
  | lifetime (text : String)
  | literal (text : String)
  | mark (c : Char) (joined : Bool)
  | group (b : Bracket) (content : List TokenTree)

namespace Bracket

/-- The bracket that `c` opens. -/
def opened? (c : Char) : Option Bracket :=
  if c = '(' then some round
  else if c = '[' then some square
  else if c = '\x7b' then some curly
  else none

/-- The bracket that `c` closes. -/
def closed? (c : Char) : Option Bracket :=
  if c = ')' then some round
  else if c = ']' then some square
  else if c = '\x7d' then some curly
  else none

/-- The front of a group. -/
def front : Bracket → String
  | round => "("
  | square => "["
  | curly => "\x7b "

/-- The back of a group. Only curly brackets keep a distance from their content. -/
def back (empty : Bool) : Bracket → String
  | round => ")"
  | square => "]"
  | curly => if empty then "\x7d" else " \x7d"

/-- The closing bracket alone. -/
def closing : Bracket → String
  | round => ")"
  | square => "]"
  | curly => "\x7d"

end Bracket

namespace TokenTree

/-- Whether the token is a mark that is joined to the next one. -/
def isJoined : TokenTree → Bool
  | mark _ joined => joined
  | _ => false

/-- Whether the token is a group between the brackets `b`. -/
def isGroup (b : Bracket) : TokenTree → Bool
  | group d _ => d = b
  | _ => false

/-- Whether the token is a lifetime. -/
def isLifetime : TokenTree → Bool
  | lifetime _ => true
  | _ => false

end TokenTree

/-! ### Text -/

mutual

/-- The text of a token. -/
def TokenTree.text : TokenTree → String
  | .word s | .lifetime s | .literal s => s
  | .mark c _ => String.ofList [c]
  | .group b content => b.front ++ render content ++ b.back content.isEmpty

/-- **The text of tokens,** with a space after each that is not joined to the next. -/
def render : List TokenTree → String
  | [] => ""
  | t :: more => t.text ++ (if more.isEmpty || t.isJoined then "" else " ") ++ render more

end

/-! ### Size -/

mutual

/-- How many tokens a token holds, itself included. -/
def TokenTree.size : TokenTree → Nat
  | .group _ content => size content + 1
  | _ => 1

/-- **How many tokens there are,** at all depths. -/
def size : List TokenTree → Nat
  | [] => 0
  | t :: more => t.size + size more

end

/-! ### Operators -/

/-- The marks of an operator, of which the last is not joined. -/
def marks : List Char → List TokenTree
  | [] => []
  | c :: more => .mark c (!more.isEmpty) :: marks more

/-- **The tokens of an operator.** -/
def symbol (s : String) : List TokenTree :=
  marks s.toList

/-- What follows the marks `cs` at the front of tokens, if they are there and joined. The last of
them may be joined to something else. -/
def afterMarks? : List Char → List TokenTree → Option (List TokenTree)
  | [], ts => some ts
  | c :: more, .mark d joined :: ts =>
    if c = d && (joined || more.isEmpty) then afterMarks? more ts else none
  | _ :: _, _ => none

/-- The operators of more than one mark, the longest first. -/
def longOperators : List String :=
  ["<<=", ">>=", "...", "..=", "::", "->", "=>", "<-", "&&", "||", "<<", ">>", "==", "!=", "<=",
    ">=", "+=", "-=", "*=", "/=", "%=", "^=", "&=", "|=", ".."]

/-- How many marks the operator at the front of tokens has. -/
def operatorLength (ts : List TokenTree) : Nat :=
  match longOperators.find? fun s => (afterMarks? s.toList ts).isSome with
  | some s => s.length
  | none => 1

mutual

/-- A token whose groups are spaced anew. -/
def TokenTree.respaced : TokenTree → TokenTree
  | .group b content => .group b (respaced 0 content)
  | t => t

/-- **Tokens spaced anew.** Marks are joined only within the longest operators that they make up;
`pending` is how many more marks belong to an operator that has begun. -/
def respaced (pending : Nat) : List TokenTree → List TokenTree
  | [] => []
  | t :: more =>
    match t with
    | .mark c joined =>
      let left := if pending = 0 then operatorLength (.mark c joined :: more) - 1 else pending - 1
      .mark c (0 < left) :: respaced left more
    | t => t.respaced :: respaced 0 more

end

end MemberAccess.Source
