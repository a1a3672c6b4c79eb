import MemberAccess.Binary64.Shortest
import MemberAccess.Text.Quoted

/-!
# Constants

A lambda may hold integers, doubles, strings and truth values.

## Main definitions

* `Literal`: a constant.
* `Literal.equal`: equality of constants, in which doubles compare as numbers.
* `Literal.render`: the text of a constant.
* `StringPiece`: the units between the quotes of a string literal, with their texts and values.
-/

namespace MemberAccess

/-- **A constant.** -/
inductive Literal where
  | int (value : Int64)
  | float (value : Binary64)
  | string (value : String)
  | bool (value : Bool)
deriving DecidableEq

namespace Literal

/-- Equality of constants. Doubles compare as numbers, everything else by identity. -/
def equal : Literal → Literal → Bool
  | float x, float y => x.equal y
  | a, b => a = b

/-- The decimal text of an integer. -/
def renderInt (n : Int) : String :=
  String.ofList ((if n < 0 then ['-'] else []) ++ Digits.ofNat n.natAbs)

/-- **The text of a constant.** Doubles take the fewest digits that read back, and strings are
quoted. -/
def render : Literal → String
  | int n => renderInt n.toInt
  | float x => x.render
  | string s => Text.quoted s
  | bool b => if b then "true" else "false"

end Literal

/-! ### The inside of a string literal -/

/-- **A unit of a string literal:** a character that stands for itself, or one after a
backslash. -/
inductive StringPiece where
  | plain (c : Char)
  | escaped (c : Char)
deriving DecidableEq

namespace StringPiece

/-- The characters of the unit in the source. -/
def text : StringPiece → List Char
  | plain c => [c]
  | escaped c => ['\\', c]

/-- The character that the unit denotes. Only seven escapes denote one. -/
def value? : StringPiece → Option Char
  | plain c => some c
  | escaped 'n' => some '\n'
  | escaped 't' => some '\t'
  | escaped 'r' => some '\r'
  | escaped '0' => some '\x00'
  | escaped '\\' => some '\\'
  | escaped '"' => some '"'
  | escaped '\x27' => some '\x27'
  | escaped _ => none

/-- Splits off the units at the front of a text: up to a quote, the end, or a backslash before a
line feed or the end. -/
def split : List Char → List StringPiece × List Char
  | [] => ([], [])
  | '\\' :: c :: more =>
    if c = '\n' then ([], '\\' :: c :: more)
    else
      let later := split more
      (escaped c :: later.1, later.2)
  | c :: more =>
    if c = '"' ∨ c = '\\' then ([], c :: more)
    else
      let later := split more
      (plain c :: later.1, later.2)

/-- The string that a run of units denotes. -/
def denote? (pieces : List StringPiece) : Option (List Char) :=
  pieces.mapM value?

/-- Splitting loses nothing. -/
theorem flatMap_text_split (cs : List Char) :
    (split cs).1.flatMap text ++ (split cs).2 = cs := by
  fun_induction split cs with
  | case1 => rfl
  | case2 => rfl
  | case3 c more hc later ih => simp_all [text, later]
  | case4 => rfl
  | case5 c more hc h later ih => simp_all [text, later]

end StringPiece

end MemberAccess
