import MemberAccess.Source.TokenTree

/-!
# Faults in code

A reader of code stops at the first token that it cannot use and says what it looked for. Most
faults also tell whether the group had ended there.

## Main definitions

* `Wanted`: what a reader looks for.
* `Fault`: what is wrong.
* `Fault.message`: its message.
-/

namespace MemberAccess.Source

/-- **What a reader looks for:** a kind of token, or the beginning of a construct. -/
inductive Wanted where
  | identifier
  | memberName
  | lifetime
  | stringLiteral
  | keyword (word : String)
  | group (b : Bracket)
  | anyGroup
  | expression
  | type
  | typeAfterBinder
  | pointerKind
  | parameter
  | item
  | segment
deriving DecidableEq

/-- **What is wrong with code.** -/
inductive Fault where
  | wanted (what : Wanted) (atEnd : Bool)
  | wantedMark (symbol : String)
  | foundKeyword (word : String)
  | literalKey
  | strangeKey
  | objectWithoutTrait
  | choiceWithoutTrait
  | binderOfQuestion
  | misplaced (what : String)
  | leftOver (b : Bracket)
deriving DecidableEq

namespace Wanted

/-- How some choices are offered: by `or` if they are two. -/
def choices : List String → String
  | [a] => a
  | [a, b] => a ++ " or " ++ b
  | all => "one of: " ++ ", ".intercalate all

/-- What may begin a type. -/
def typeChoices : List String :=
  ["`for`", "parentheses", "`fn`", "`unsafe`", "`extern`", "identifier", "`::`", "`<`", "`dyn`",
    "square brackets", "`*`", "`&`", "`!`", "`impl`", "`_`", "lifetime"]

/-- What may follow lifetimes that are bound in front of a type. -/
def boundTypeChoices : List String :=
  ["identifier", "`fn`", "`unsafe`", "`extern`", "`super`", "`self`", "`Self`", "`crate`"]

/-- The name of what is looked for. -/
def text : Wanted → String
  | identifier => "identifier"
  | memberName => "identifier or integer"
  | lifetime => "lifetime"
  | stringLiteral => "string literal"
  | keyword word => "`" ++ word ++ "`"
  | group .round => "parentheses"
  | group .square => "square brackets"
  | group .curly => "curly braces"
  | anyGroup => "delimiter"
  | expression => "an expression"
  | type => choices typeChoices
  | typeAfterBinder => choices boundTypeChoices
  | pointerKind => choices ["`const`", "`mut`"]
  | parameter => choices ["identifier", "lifetime", "`const`"]
  | item => "nested attribute"
  | segment => "ident"

end Wanted

/-- **The message of a fault.** -/
def Fault.message : Fault → String
  | wanted what atEnd =>
    (if atEnd then "unexpected end of input, " else "") ++ "expected " ++ what.text
  | wantedMark symbol => "expected `" ++ symbol ++ "`"
  | foundKeyword word => "expected identifier, found keyword `" ++ word ++ "`"
  | literalKey => "unexpected literal in nested attribute, expected ident"
  | strangeKey => "unexpected token in nested attribute, expected ident"
  | objectWithoutTrait => "at least one trait is required for an object type"
  | choiceWithoutTrait => "at least one trait must be specified"
  | binderOfQuestion => "`for<...>` binder not allowed with `?` trait polarity modifier"
  | misplaced what => what ++ " is not allowed here"
  | leftOver b => "unexpected token, expected `" ++ b.closing ++ "`"

end MemberAccess.Source
