import MemberAccess.Binary64.Basic
import MemberAccess.Binary64.Digits

/-!
# Reading a double from decimal text

A decimal numeral `digits * 10 ^ exponent` denotes the nearest double. The powers of ten are exact
integers, so a numeral whose leading digit lies outside the range of the format is decided by its
size alone.

## Main definitions

* `Binary64.ofDecimal`: the number nearest to a decimal numeral.
* `Binary64.read?`: the number that a text denotes. A text is an optional sign followed by `inf`,
  `infinity` or `nan` in any case, or by digits with an optional point among or beside them and an
  optional exponent.
-/

namespace MemberAccess.Binary64

/-- **The number nearest to `digits * 10 ^ exponent`.** The largest number is below `10 ^ 309`, and
half of the least positive one is above `10 ^ -324`. -/
def ofDecimal (negative : Bool) (digits : Nat) (exponent : Int) : Binary64 :=
  let size := (Digits.ofNat digits).length + exponent
  if digits = 0 ∨ size < -330 then ofRank negative 0
  else if 330 < size then infinite negative
  else ofFraction negative (digits * Nat.pow 10 exponent.toNat) (Nat.pow 10 (-exponent).toNat)

/-- The number written by the digits `whole`, a point, the digits `part` and the exponent. -/
def ofNumeral (negative : Bool) (whole part : List Char) (exponent : Int) : Binary64 :=
  ofDecimal negative (Digits.toNat (whole ++ part)) (exponent - part.length)

/-- Splits the sign from a text; a minus sign is `true`. -/
def splitSign : List Char → Bool × List Char
  | '-' :: cs => (true, cs)
  | '+' :: cs => (false, cs)
  | cs => (false, cs)

/-- The exponent that a text after the digits denotes: none, or `e` with a signed run of digits. -/
def readExponent? : List Char → Option Int
  | [] => some 0
  | c :: cs =>
    let (negative, ds) := splitSign cs
    if (c = 'e' ∨ c = 'E') ∧ ds ≠ [] ∧ ds.all Digits.isDigit then
      some (if negative then -Digits.toNat ds else Digits.toNat ds)
    else none

/-- The number that an unsigned text denotes. -/
def readUnsigned? (negative : Bool) (cs : List Char) : Option Binary64 :=
  let word := cs.map Char.toLower
  if word = ['i', 'n', 'f'] ∨ word = ['i', 'n', 'f', 'i', 'n', 'i', 't', 'y'] then
    some (infinite negative)
  else if word = ['n', 'a', 'n'] then some nan
  else
    let whole := cs.takeWhile Digits.isDigit
    let (part, rest) := match cs.dropWhile Digits.isDigit with
      | '.' :: more => (more.takeWhile Digits.isDigit, more.dropWhile Digits.isDigit)
      | more => ([], more)
    if whole = [] ∧ part = [] then none
    else (readExponent? rest).map (ofNumeral negative whole part)

/-- **The number that a text denotes,** if it denotes one. -/
def read? (cs : List Char) : Option Binary64 :=
  let (negative, more) := splitSign cs
  readUnsigned? negative more

end MemberAccess.Binary64
