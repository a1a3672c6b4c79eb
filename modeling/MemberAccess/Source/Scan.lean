import MemberAccess.Source.StringLiteral
import MemberAccess.Source.TokenTree
import MemberAccess.Text.Word

/-!
# Splitting code into tokens

Code is cut into pieces from left to right: a blank, a comment, one bracket or one token. A piece
is found by how many characters it takes. Brackets are then matched, and what stands between two of
them becomes a group. A comment that documents is an attribute in disguise, and is read as one.

## Main definitions

* `Piece`: tokens, or a bracket.
* `pieceAt?`: the piece at the front of a text, with its length.
* `pieces?`: the pieces of a text.
* `nest?`: the tokens of pieces.
* `tokens?`: the tokens of a text.
-/

namespace MemberAccess.Source

open Text

/-! ### Words -/

/-- The words that have a meaning of their own, and are no identifiers. The underscore is one of
them. -/
def keywords : List String :=
  ["_", "abstract", "as", "async", "await", "become", "box", "break", "const", "continue", "crate",
    "do", "dyn", "else", "enum", "extern", "false", "final", "fn", "for", "if", "impl", "in", "let",
    "loop", "macro", "match", "mod", "move", "mut", "override", "priv", "pub", "ref", "return",
    "Self", "self", "static", "struct", "super", "trait", "true", "try", "type", "typeof",
    "unsafe", "unsized", "use", "virtual", "where", "while", "yield"]

/-- The keywords that no raw word may hide. -/
def neverRaw : List String :=
  ["_", "super", "self", "Self", "crate"]

/-- How many characters the word at the front of a text has; none stands there if it is 0. -/
def plainWordLength : List Char → Nat
  | c :: more => if startsWord c then 1 + (more.takeWhile continuesWord).length else 0
  | [] => 0

/-- How many characters the word at the front of a text has, which may be raw. -/
def wordLength : List Char → Nat
  | 'r' :: '#' :: more =>
    let n := plainWordLength more
    if n = 0 || neverRaw.contains (String.ofList (more.take n)) then 0 else n + 2
  | cs => plainWordLength cs

/-! ### Numbers -/

/-- Whether `c` may stand among the digits of a number. -/
def isDigitOrGap (c : Char) : Bool :=
  Digits.isDigit c || c = '_'

/-- How many characters the exponent at the front of a text has: `e`, an optional sign, and at least
one digit. -/
def exponentLength? : List Char → Option Nat
  | [] => none
  | c :: more =>
    let gap := (more.takeWhile (· = '_')).length
    let sign := match more.drop gap with
      | s :: _ => if s = '+' || s = '-' then 1 else 0
      | [] => 0
    let digits := (more.drop (gap + sign)).takeWhile isDigitOrGap
    if (c = 'e' || c = 'E') && digits.any Digits.isDigit then some (1 + gap + sign + digits.length)
    else none

/-- How many characters the number at the front of a text has, which begins with a digit. A point
belongs to it unless another point or a word follows. -/
def numberLength (cs : List Char) : Nat :=
  let digits := (cs.takeWhile isDigitOrGap).length
  let length := match cs.drop digits with
    | '.' :: more =>
      if more.head?.any fun c => c = '.' || startsWord c then digits
      else
        let part := (more.takeWhile isDigitOrGap).length
        digits + 1 + part + (exponentLength? (more.drop part)).getD 0
    | rest => digits + (exponentLength? rest).getD 0
  length + ((cs.drop length).takeWhile continuesWord).length

/-! ### Other literals -/

/-- How many characters the text after an opening tick has, up to the closing tick and with it, if
it is one character or one escape. -/
def tickedLength? : List Char → Option Nat
  | '\\' :: _ :: more =>
    let inner := (more.takeWhile (· ≠ '\x27')).length
    if (more.drop inner).isEmpty then none else some (inner + 3)
  | _ :: '\x27' :: _ => some 2
  | _ => none

/-- How many characters a raw literal has after its `r`, up to the closing quote and its hash
signs. -/
def rawLiteralLength? (cs : List Char) : Option Nat :=
  match splitHashes cs with
  | (hashes, '"' :: more) => (rawLength? hashes more).map (· + 2 * hashes + 2)
  | _ => none

/-- How many characters the quoted literal at the front of a text has, without its suffix: a
string, a string of bytes or of another kind, or a character. -/
def quotedLiteralLength? : List Char → Option Nat
  | '"' :: more => (quotedLength? more).map (· + 1)
  | 'r' :: more => (rawLiteralLength? more).map (· + 1)
  | 'b' :: '"' :: more => (quotedLength? more).map (· + 2)
  | 'b' :: 'r' :: more => (rawLiteralLength? more).map (· + 2)
  | 'b' :: '\x27' :: more => (tickedLength? more).map (· + 2)
  | 'c' :: '"' :: more => (quotedLength? more).map (· + 2)
  | 'c' :: 'r' :: more => (rawLiteralLength? more).map (· + 2)
  | '\x27' :: more => (tickedLength? more).map (· + 1)
  | _ => none

/-- How many characters the literal at the front of a text has, with its suffix. -/
def literalLength? (cs : List Char) : Option Nat :=
  if cs.head?.any Digits.isDigit then some (numberLength cs)
  else (quotedLiteralLength? cs).map fun n => n + plainWordLength (cs.drop n)

/-! ### Blanks and comments -/

/-- Whether `c` is blank between tokens: white space, or a mark of the writing direction. -/
def isCodeBlank (c : Char) : Bool :=
  Ranges.contains [(0x9, 0xD), (0x20, 0x20), (0x85, 0x85), (0xA0, 0xA0), (0x1680, 0x1680),
    (0x2000, 0x200A), (0x200E, 0x200F), (0x2028, 0x2029), (0x202F, 0x202F), (0x205F, 0x205F),
    (0x3000, 0x3000)] c.toNat

/-- How many characters a comment between `/*` and `*/` has in front of its end, with it. Comments
nest; `depth` of them are open. -/
def blockLength? (depth : Nat) : List Char → Option Nat
  | '/' :: '*' :: more => (blockLength? (depth + 1) more).map (· + 2)
  | '*' :: '/' :: more =>
    if depth ≤ 1 then some 2 else (blockLength? (depth - 1) more).map (· + 2)
  | _ :: more => (blockLength? depth more).map (· + 1)
  | [] => none

/-- The rest of a line: up to a line feed, or the carriage return in front of one. -/
def lineLength : List Char → Nat
  | [] => 0
  | '\n' :: _ => 0
  | '\r' :: '\n' :: _ => 0
  | _ :: more => 1 + lineLength more

/-- The attribute that a comment stands for. One that documents what is around it has a `!`. -/
def documentation (inner : Bool) (text : List Char) : List TokenTree :=
  symbol "#" ++ (if inner then symbol "!" else []) ++
    [.group .square (.word "doc" :: symbol "=" ++
      [.literal (StringLiteral.ofValue (String.ofList text)).text])]

/-- The tokens of the comment at the front of a text, and its length. Most comments have none. -/
def comment? (cs : List Char) : Option (List TokenTree × Nat) :=
  match cs with
  | '/' :: '/' :: more =>
    let n := lineLength more
    match more.take n with
    | '!' :: text => some (documentation true text, n + 2)
    | '/' :: '/' :: _ => some ([], n + 2)
    | '/' :: text => some (documentation false text, n + 2)
    | _ => some ([], n + 2)
  | '/' :: '*' :: more =>
    (blockLength? 1 more).map fun n =>
      match more.take (n - 2) with
      | '!' :: text => (documentation true text, n + 2)
      | '*' :: text =>
        if more.tail.head? = some '*' then ([], n + 2) else (documentation false text, n + 2)
      | _ => ([], n + 2)
  | _ => none

/-! ### Pieces -/

/-- **A piece of code:** tokens, or a bracket. -/
inductive Piece where
  | tokens (ts : List TokenTree)
  | opens (b : Bracket)
  | closes (b : Bracket)

/-- The characters that are marks. -/
def markChars : List Char :=
  "~!@#$%^&*-=+|;:,<.>/?".toList

/-- Whether a mark in front of `cs` is joined to what follows: another mark or a tick, and no
comment. -/
def isJoinedTo : List Char → Bool
  | '/' :: '/' :: _ => false
  | '/' :: '*' :: _ => false
  | c :: _ => markChars.contains c || c = '\x27'
  | [] => false

/-- **The piece at the front of a text,** which begins with `c`, and how many characters it takes.
Literals come before words, whose front they may look like. -/
def pieceAt? (c : Char) (more : List Char) : Option (Piece × Nat) :=
  let cs := c :: more
  if isCodeBlank c then some (.tokens [], 1)
  else
    match comment? cs with
    | some (ts, n) => some (.tokens ts, n)
    | none =>
      match literalLength? cs with
      | some n => some (.tokens [.literal (String.ofList (cs.take n))], n)
      | none =>
        if c = '\x27' then
          let n := wordLength more
          if n = 0 then none
          else some (.tokens [.lifetime (String.ofList (cs.take (n + 1)))], n + 1)
        else if markChars.contains c then some (.tokens [.mark c (isJoinedTo more)], 1)
        else
          match Bracket.opened? c, Bracket.closed? c with
          | some b, _ => some (.opens b, 1)
          | none, some b => some (.closes b, 1)
          | none, none =>
            let n := wordLength cs
            if n = 0 then none else some (.tokens [.word (String.ofList (cs.take n))], n)

/-- **The pieces of a text,** unless no piece can begin somewhere in it. -/
def pieces? : List Char → Option (List Piece)
  | [] => some []
  | c :: more =>
    match pieceAt? c more with
    | none => none
    | some (p, n) => (pieces? (more.drop (n - 1))).map (p :: ·)
termination_by cs => cs.length
decreasing_by exact Nat.lt_succ_of_le (List.length_drop ▸ Nat.sub_le _ _)

/-! ### Groups -/

/-- **Matches brackets.** The groups that are open are kept with what stands before them, the
innermost first; `done` is what stands in the innermost so far, the last token first. -/
def nest? (opened : List (Bracket × List TokenTree)) (done : List TokenTree) :
    List Piece → Option (List TokenTree)
  | [] => if opened.isEmpty then some done.reverse else none
  | .tokens ts :: more => nest? opened (ts.reverse ++ done) more
  | .opens b :: more => nest? ((b, done) :: opened) [] more
  | .closes b :: more =>
    match opened with
    | (d, before) :: outer =>
      if b = d then nest? outer (.group b done.reverse :: before) more else none
    | [] => none

/-- **The tokens of a text,** unless it is no code. -/
def tokens? (text : String) : Option (List TokenTree) :=
  (pieces? text.toList).bind (nest? [] [])

end MemberAccess.Source
