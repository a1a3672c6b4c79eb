import MemberAccess.Binary64.Digits

/-!
# Reading integers in words

An integer constant is a word of 64 bits, one of them for the sign. A machine that reads one has no
numbers but words: it begins with zero, and for each digit it multiplies by ten and adds the digit.
A product or a sum may be too large for a word. A run of at most fifteen digits never gets that far,
and is read by arithmetic that wraps around. In a longer run each product and each sum is checked,
and the first that is no word ends the reading.

## Main definitions

* `Digits.toWord?`: an integer as a word.
* `Digits.appendWrapping`, `Digits.appendChecked`: one digit more.
* `Digits.readWord?`: the word that a run of digits denotes.
-/

namespace MemberAccess.Digits

/-- An integer as a word, if it is neither too small nor too large for one. -/
def toWord? (n : Int) : Option Int64 :=
  if Int64.minValue.toInt ≤ n ∧ n ≤ Int64.maxValue.toInt then some (Int64.ofInt n) else none

/-- The value of a digit as a word. -/
def digitWord (c : Char) : Int64 :=
  Int64.ofNat (c.toNat - '0'.toNat)

/-- The word that follows `n` when the digit `c` is appended. It wraps around if the number is too
large. -/
def appendWrapping (n : Int64) (c : Char) : Int64 :=
  10 * n + digitWord c

/-- The word that follows `n` when the digit `c` is appended, if the product and the sum are
words. -/
def appendChecked (n : Int64) (c : Char) : Option Int64 := do
  let product ← toWord? ((10 : Int64).toInt * n.toInt)
  toWord? (product.toInt + (digitWord c).toInt)

/-- The number of digits up to which nothing is checked. -/
def uncheckedLength : Nat := 15

/-- **The word that a run of digits denotes,** if the number is one. -/
def readWord? (cs : List Char) : Option Int64 :=
  if cs.length ≤ uncheckedLength then some (cs.foldl appendWrapping 0)
  else cs.foldlM appendChecked 0

end MemberAccess.Digits
