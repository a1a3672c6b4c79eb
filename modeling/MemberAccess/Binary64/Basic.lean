/-!
# Double-precision numbers

The finite numbers of the format are ordered, and a magnitude is stored as its place in that
order: zero has rank `0`, the least positive number rank `1`. A rank below `2 ^ 52` is a multiple
of the least quantum; from there on each run of `2 ^ 52` ranks doubles the quantum. With this, a
carry in rounding is an addition of one, and overflow is a rank past the last.

## Main definitions

* `Binary64`: the numbers, the infinities and one not-a-number.
* `Binary64.significand`, `Binary64.scale`: a magnitude is `significand * 2 ^ scale`.
* `Binary64.equal`: the numeric comparison, under which the zeros agree and not-a-number differs
  from itself.
* `Binary64.ofFraction`: the number nearest to a fraction, a tie going to the even significand.
-/

namespace MemberAccess

/-- The ranks of one quantum, `2 ^ 52`: a normal significand has one bit more than a place in such
a run. -/
def binadeSize : Nat := 4503599627370496

/-- The rank that follows the largest finite magnitude. -/
def rankLimit : Nat := 2047 * binadeSize

/-- **A double-precision number.** A finite one is its sign and the rank of its magnitude. -/
inductive Binary64 where
  | nan
  | infinite (negative : Bool)
  | finite (negative : Bool) (rank : Fin rankLimit)
deriving DecidableEq

namespace Binary64

/-! ### Magnitudes -/

/-- The integer significand of the magnitude of rank `n`. -/
def significand (n : Nat) : Nat :=
  if n < binadeSize then n else binadeSize + n % binadeSize

/-- The binary exponent of the significand of rank `n`. -/
def scale (n : Nat) : Int :=
  (max (n / binadeSize) 1 : Nat) - 1075

/-- The magnitude of rank `n` as a fraction whose denominator is a power of two. -/
def fraction (n : Nat) : Nat × Nat :=
  (significand n * Nat.pow 2 (scale n).toNat, Nat.pow 2 (-scale n).toNat)

/-- **Numeric equality.** The two zeros are equal, and not-a-number equals nothing. -/
def equal : Binary64 → Binary64 → Bool
  | nan, _ => false
  | _, nan => false
  | finite s m, finite t n => m = n && (s = t || m.val = 0)
  | x, y => x = y

/-! ### Rounding -/

/-- The integer nearest to `num / den`; of two, the even one. -/
def roundHalfEven (num den : Nat) : Nat :=
  let below := num / den
  let rest := 2 * (num % den)
  if rest < den ∨ (rest = den ∧ below % 2 = 0) then below else below + 1

/-- The largest `k` with `2 ^ k ≤ num / den`, for positive operands. -/
def floorLog2 (num den : Nat) : Int :=
  let k : Int := (num.log2 : Int) - den.log2
  if den * Nat.pow 2 k.toNat ≤ num * Nat.pow 2 (-k).toNat then k else k - 1

/-- The rank of the magnitude nearest to the positive fraction `num / den`. It is past the last
rank when the fraction is too large. -/
def nearestRank (num den : Nat) : Nat :=
  let e := max (floorLog2 num den - 52) (-1074)
  (e + 1074).toNat * binadeSize +
    roundHalfEven (num * Nat.pow 2 (-e).toNat) (den * Nat.pow 2 e.toNat)

/-- The finite number of a rank, or the infinity past the last. -/
def ofRank (negative : Bool) (n : Nat) : Binary64 :=
  if h : n < rankLimit then finite negative ⟨n, h⟩ else infinite negative

/-- **Rounding a fraction** to the nearest number. -/
def ofFraction (negative : Bool) (num den : Nat) : Binary64 :=
  ofRank negative (if num = 0 then 0 else nearestRank num den)

end Binary64

end MemberAccess
