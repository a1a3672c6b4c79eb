import MemberAccess.Binary64.Reading

/-!
# The shortest decimal text of a double

A number is shown with the fewest decimal digits that read back as the same number; among those
the nearest to it, and of two equally near the larger. The digits are found by trying, for one
digit, two digits and so on, the two neighbours of the number on that decimal grid.

## Main definitions

* `Binary64.Decimal`: an unsigned decimal numeral.
* `Binary64.shortest`: the shortest numeral of a magnitude.
* `Binary64.render`: the text of a number. It is positional from `0.0001` up to below
  `10000000000000000.0`, always with a point, and has an exponent outside.
-/

namespace MemberAccess.Binary64

/-- The unsigned decimal numeral `digits * 10 ^ exponent`. -/
structure Decimal where
  digits : Nat
  exponent : Int
deriving DecidableEq

namespace Decimal

/-- Whether the numeral is read as the magnitude of rank `n`. -/
def readsBack (d : Decimal) (n : Nat) : Bool :=
  ofDecimal false d.digits d.exponent = ofRank false n

end Decimal

/-! ### Choosing the digits -/

/-- The place of the decimal point of the positive fraction `num / den`: the `k` with
`10 ^ (k - 1) ≤ num / den < 10 ^ k`. -/
def pointPlace (num den : Nat) : Int :=
  let k : Int := (Digits.ofNat num).length - (Digits.ofNat den).length
  if den * Nat.pow 10 k.toNat ≤ num * Nat.pow 10 (-k).toNat then k + 1 else k

/-- The numeral of `count` digits that stands for the rank `n`, if one does: the nearer of the two
neighbours of the magnitude on the grid of that many digits. -/
def candidate? (n count : Nat) : Option Decimal :=
  let (num, den) := fraction n
  let unit : Int := pointPlace num den - count
  let scaled := num * Nat.pow 10 (-unit).toNat
  let step := den * Nat.pow 10 unit.toNat
  let below : Decimal := ⟨scaled / step, unit⟩
  let above : Decimal := ⟨scaled / step + 1, unit⟩
  if below.readsBack n ∧ (2 * (scaled % step) < step ∨ ¬ above.readsBack n) then some below
  else if above.readsBack n then some above
  else none

/-- The exact decimal numeral of the rank `n`: a power of two in the denominator becomes a power
of five in the numerator. -/
def exact (n : Nat) : Decimal :=
  let e := scale n
  ⟨significand n * Nat.pow 2 e.toNat * Nat.pow 5 (-e).toNat, min e 0⟩

/-- Tries `count` digits, then one more, `tries` times in all. The exact numeral closes the
search. -/
def shortestFrom (n : Nat) : (tries count : Nat) → Decimal
  | 0, _ => exact n
  | tries + 1, count => (candidate? n count).getD (shortestFrom n tries (count + 1))

/-- **The shortest numeral** of the positive magnitude of rank `n`. Seventeen digits suffice for
every double. -/
def shortest (n : Nat) : Decimal :=
  shortestFrom n 17 1

/-! ### Laying out the digits -/

/-- The digits without their trailing zeros. -/
def dropTrailingZeros (cs : List Char) : List Char :=
  (cs.reverse.dropWhile (· = '0')).reverse

/-- A run of zeros. -/
def zeros (n : Nat) : List Char :=
  List.replicate n '0'

/-- Digits with the decimal point at `point`, which may lie outside of them. There is a digit on
either side of it. -/
def positional (ds : List Char) (point : Int) : List Char :=
  if point ≤ 0 then ['0', '.'] ++ zeros (-point).toNat ++ ds
  else if ds.length ≤ point.toNat then ds ++ zeros (point.toNat - ds.length) ++ ['.', '0']
  else ds.take point.toNat ++ '.' :: ds.drop point.toNat

/-- Digits with the point after the first of them, if more follow, and an exponent. -/
def scientific (ds : List Char) (exponent : Int) : List Char :=
  ds.take 1 ++ (if ds.length ≤ 1 then [] else '.' :: ds.drop 1) ++
    'e' :: (if exponent < 0 then ['-'] else []) ++ Digits.ofNat exponent.natAbs

/-- The text of a numeral. Numbers from `10 ^ -4` up to below `10 ^ 16` are positional. -/
def Decimal.layout (d : Decimal) : List Char :=
  let all := Digits.ofNat d.digits
  let point : Int := all.length + d.exponent
  let ds := dropTrailingZeros all
  if -4 < point ∧ point ≤ 16 then positional ds point else scientific ds (point - 1)

/-- The text of the magnitude of rank `n`. -/
def renderMagnitude (n : Nat) : List Char :=
  if n = 0 then ['0', '.', '0'] else (shortest n).layout

/-- **The text of a number.** -/
def render : Binary64 → String
  | nan => "NaN"
  | infinite negative => if negative then "-inf" else "inf"
  | finite negative n =>
    String.ofList ((if negative then ['-'] else []) ++ renderMagnitude n.val)

end MemberAccess.Binary64
