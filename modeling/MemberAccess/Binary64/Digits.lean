/-!
# Decimal digits

## Main definitions

* `Digits.ofNat`: the decimal digits of a number, most significant first.
* `Digits.toNat`: the number that a run of decimal digits denotes.
* `Digits.toNat_ofNat`: reading the digits of a number gives it back.
-/

namespace MemberAccess.Digits

/-- The decimal digit of value `d`, for `d < 10`. -/
def ofDigit (d : Nat) : Char :=
  Char.ofNat ('0'.toNat + d)

/-- Whether `c` is a decimal digit. Only the ten ASCII digits are. -/
def isDigit (c : Char) : Bool :=
  '0' ≤ c && c ≤ '9'

/-- The decimal digits of `n`, most significant first; zero has one digit. -/
def ofNat (n : Nat) : List Char :=
  if n < 10 then [ofDigit n] else ofNat (n / 10) ++ [ofDigit (n % 10)]

/-- The number that follows `n` when the digit `c` is appended. -/
def append (n : Nat) (c : Char) : Nat :=
  10 * n + (c.toNat - '0'.toNat)

/-- The number that a run of digits denotes; leading zeros do not count. -/
def toNat (cs : List Char) : Nat :=
  cs.foldl append 0

/-! ### Reading what was written -/

/-- The character of a digit stands as far behind `0` as the digit says. -/
theorem toNat_ofDigit {d : Nat} (h : d < 10) : (ofDigit d).toNat - '0'.toNat = d := by
  match d, h with
  | 0, _ | 1, _ | 2, _ | 3, _ | 4, _ | 5, _ | 6, _ | 7, _ | 8, _ | 9, _ => rfl

/-- The character of a digit is a digit. -/
theorem isDigit_ofDigit {d : Nat} (h : d < 10) : isDigit (ofDigit d) = true := by
  match d, h with
  | 0, _ | 1, _ | 2, _ | 3, _ | 4, _ | 5, _ | 6, _ | 7, _ | 8, _ | 9, _ => rfl

/-- One digit more is appended to the number that the digits before it denote. -/
theorem toNat_concat (cs : List Char) (c : Char) : toNat (cs ++ [c]) = append (toNat cs) c := by
  simp [toNat]

/-- **Digits read back.** -/
theorem toNat_ofNat (n : Nat) : toNat (ofNat n) = n := by
  induction n using Nat.strongRecOn with
  | _ n ih =>
    unfold ofNat
    split
    next h =>
      show 10 * 0 + _ = n
      rw [toNat_ofDigit h]
      omega
    next h =>
      rw [toNat_concat, ih (n / 10) (by omega), append, toNat_ofDigit (Nat.mod_lt n (by omega))]
      omega

/-- A number is written with digits only. -/
theorem isDigit_of_mem_ofNat {n : Nat} {c : Char} (h : c ∈ ofNat n) : isDigit c = true := by
  induction n using Nat.strongRecOn with
  | _ n ih =>
    unfold ofNat at h
    split at h
    next hn =>
      rw [List.mem_singleton] at h
      exact h ▸ isDigit_ofDigit hn
    next hn =>
      rcases List.mem_append.1 h with h | h
      · exact ih (n / 10) (by omega) h
      · rw [List.mem_singleton] at h
        exact h ▸ isDigit_ofDigit (Nat.mod_lt n (by omega))

/-- A number is written with at least one digit. -/
theorem ofNat_ne_nil (n : Nat) : ofNat n ≠ [] := by
  unfold ofNat
  split <;> simp

end MemberAccess.Digits
