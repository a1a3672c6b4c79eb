import MemberAccess.Lambda.Literal

/-!
# Tokens

## Main definitions

* `Symbol`: the operators and punctuation marks.
* `Token`: a symbol, the keyword `as`, a constant or an identifier.
* `Token.text`: the text of a token in messages.
-/

namespace MemberAccess

/-- **Operators and punctuation.** -/
inductive Symbol where
  | orOr | andAnd | pipe | arrow
  | equals | differs | atMost | atLeast | less | greater
  | plus | minus | star | slash | percent | bang
  | dot | comma | colons
  | openParen | closeParen | openBracket | closeBracket
deriving DecidableEq

namespace Symbol

/-- The characters of a symbol. -/
def chars : Symbol → List Char
  | orOr => ['|', '|']
  | andAnd => ['&', '&']
  | pipe => ['|']
  | arrow => ['=', '>']
  | equals => ['=', '=']
  | differs => ['!', '=']
  | atMost => ['<', '=']
  | atLeast => ['>', '=']
  | less => ['<']
  | greater => ['>']
  | plus => ['+']
  | minus => ['-']
  | star => ['*']
  | slash => ['/']
  | percent => ['%']
  | bang => ['!']
  | dot => ['.']
  | comma => [',']
  | colons => [':', ':']
  | openParen => ['(']
  | closeParen => [')']
  | openBracket => ['[']
  | closeBracket => [']']

/-- The symbol of two characters. -/
def ofPair? : Char → Char → Option Symbol
  | '|', '|' => some orOr
  | '&', '&' => some andAnd
  | '=', '>' => some arrow
  | '=', '=' => some equals
  | '!', '=' => some differs
  | '<', '=' => some atMost
  | '>', '=' => some atLeast
  | ':', ':' => some colons
  | _, _ => none

/-- The symbol of one character. -/
def ofChar? : Char → Option Symbol
  | '|' => some pipe
  | '<' => some less
  | '>' => some greater
  | '+' => some plus
  | '-' => some minus
  | '*' => some star
  | '/' => some slash
  | '%' => some percent
  | '!' => some bang
  | '.' => some dot
  | ',' => some comma
  | '(' => some openParen
  | ')' => some closeParen
  | '[' => some openBracket
  | ']' => some closeBracket
  | _ => none

end Symbol

/-- **A token.** An identifier does not keep the mark of a raw one. -/
inductive Token where
  | symbol (s : Symbol)
  | keywordAs
  | literal (l : Literal)
  | ident (name : String)
deriving DecidableEq

/-- The text of a token. -/
def Token.text : Token → String
  | symbol s => String.ofList s.chars
  | keywordAs => "as"
  | literal l => l.render
  | ident name => name

end MemberAccess
