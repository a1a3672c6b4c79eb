import Mathlib.Algebra.Order.Field.Rat
import Mathlib.Data.Int.Log
import Mathlib.Data.Rat.Floor
import Mathlib.Tactic.FieldSimp
import Mathlib.Tactic.NormNum
import Mathlib.Tactic.Positivity
import Mathlib.Tactic.Ring
import MemberAccess.Binary64.Shortest

/-!
# Rounding depends on values alone

A number is rounded from a fraction of integers, and the same value has many fractions. The place of
the leading bit is a logarithm of the value, and rounding to an integer does not change when both
operands are multiplied; so the nearest number depends on the value alone. Two things follow. A
decimal numeral may lose or gain zeros at its end. And a fraction that is the value of a number is
rounded to that number, so that every numeral that `shortest` finds is read back.

## Main results

* `Binary64.floorLog2_eq_log`: the leading bit, as a logarithm.
* `Binary64.ofFraction_congr`, `Binary64.ofDecimal_mul_pow`: other fractions and numerals of a
  value.
* `Binary64.nearestRank_fraction`: the value of a rank is rounded to the rank.
* `Binary64.readsBack_shortest`: the shortest numeral of a rank reads back.
-/

namespace MemberAccess

/-! ### The length of numerals -/

namespace Digits

/-- A number is below the power of ten that its length tells. -/
theorem lt_pow_length (n : Nat) : n < 10 ^ (ofNat n).length := by
  induction n using Nat.strongRecOn with
  | _ n ih =>
      unfold ofNat
      split
      next h => simpa using h
      next h =>
          have hshort := ih (n / 10) (by omega)
          rw [List.length_append, List.length_singleton, Nat.pow_succ]
          omega

/-- A positive number is not below the power of ten before. -/
theorem pow_length_le {n : Nat} (hn : 0 < n) : 10 ^ ((ofNat n).length - 1) ≤ n := by
  induction n using Nat.strongRecOn with
  | _ n ih =>
      unfold ofNat
      split
      next h => exact hn
      next h =>
          have hshort := ih (n / 10) (by omega) (by omega)
          have hpos : 0 < (ofNat (n / 10)).length := List.length_pos_iff.2 (ofNat_ne_nil _)
          obtain ⟨k, hk⟩ := Nat.exists_eq_succ_of_ne_zero (Nat.ne_of_gt hpos)
          rw [hk, Nat.succ_sub_one] at hshort
          rw [List.length_append, List.length_singleton, hk, Nat.add_sub_cancel, Nat.pow_succ]
          omega

/-- A factor of ten is a zero at the end. -/
theorem ofNat_mul_pow {n : Nat} (hn : 0 < n) (j : Nat) :
    ofNat (n * 10 ^ j) = ofNat n ++ List.replicate j '0' := by
  induction j with
  | zero => simp
  | succ j ih =>
      have hpos : 0 < n * 10 ^ j := Nat.mul_pos hn (Nat.pow_pos (by decide))
      have hnext : n * 10 ^ (j + 1) = n * 10 ^ j * 10 := by rw [Nat.pow_succ, Nat.mul_assoc]
      have hdigit : ofDigit 0 = '0' := rfl
      rw [hnext, ofNat, if_neg (by omega), Nat.mul_div_cancel _ (by decide), ih,
        Nat.mul_mod_left, hdigit, List.append_assoc, List.replicate_succ']

end Digits

namespace Binary64

/-! ### Rounding to an integer -/

/-- A common factor does not matter. -/
theorem roundHalfEven_mul (num den : Nat) {c : Nat} (hc : 0 < c) :
    roundHalfEven (num * c) (den * c) = roundHalfEven num den := by
  have hdiv : num * c / (den * c) = num / den := Nat.mul_div_mul_right num den hc
  have hmod : 2 * (num * c % (den * c)) = 2 * (num % den) * c := by
    rw [Nat.mul_mod_mul_right, Nat.mul_assoc]
  simp only [roundHalfEven, hdiv, hmod, Nat.mul_lt_mul_right hc, Nat.mul_left_inj hc.ne']

/-- Fractions of one value are rounded alike. -/
theorem roundHalfEven_congr {num den num' den' : Nat} (hden : 0 < den) (hden' : 0 < den')
    (h : num * den' = num' * den) : roundHalfEven num den = roundHalfEven num' den' := by
  rw [← roundHalfEven_mul num den hden', h, Nat.mul_comm den, roundHalfEven_mul num' den' hden]

/-- An integer is not rounded. -/
theorem roundHalfEven_of_mul (n : Nat) {c : Nat} (hc : 0 < c) : roundHalfEven (n * c) c = n := by
  simp [roundHalfEven, Nat.mul_div_cancel n hc, hc]

/-! ### The leading bit -/

/-- A power of two, as a fraction of powers. -/
theorem zpow_eq_div (k : Int) : (2 : ℚ) ^ k = 2 ^ k.toNat / 2 ^ (-k).toNat := by
  have hk : k = (k.toNat : Int) - ((-k).toNat : Int) := by omega
  conv_lhs => rw [hk]
  rw [zpow_sub₀ (by norm_num), zpow_natCast, zpow_natCast]

/-- Comparing a fraction with a power of two. -/
theorem zpow_le_div_iff {num den : Nat} (hden : 0 < den) (k : Int) :
    (2 : ℚ) ^ k ≤ num / den ↔ den * 2 ^ k.toNat ≤ num * 2 ^ (-k).toNat := by
  have hpos : (0 : ℚ) < den := Nat.cast_pos.2 hden
  rw [zpow_eq_div, div_le_div_iff₀ (by positivity) hpos, mul_comm ((2 : ℚ) ^ k.toNat)]
  exact_mod_cast Iff.rfl

/-- The logarithm of a value tells the powers of two up to it. -/
theorem zpow_le_iff {q : ℚ} (hq : 0 < q) (k : Int) : (2 : ℚ) ^ k ≤ q ↔ k ≤ Int.log 2 q := by
  have h := Int.zpow_le_iff_le_log (b := 2) (by decide) (x := k) hq
  rwa [Nat.cast_ofNat] at h

/-- The logarithm of a value tells the powers of two above it. -/
theorem lt_zpow_iff {q : ℚ} (hq : 0 < q) (k : Int) : q < (2 : ℚ) ^ k ↔ Int.log 2 q < k := by
  rw [← not_le, zpow_le_iff hq, not_le]

/-- **The leading bit of a fraction** is the logarithm of its value. -/
theorem floorLog2_eq_log {num den : Nat} (hnum : 0 < num) (hden : 0 < den) :
    floorLog2 num den = Int.log 2 ((num : ℚ) / den) := by
  have hnum' : (0 : ℚ) < num := Nat.cast_pos.2 hnum
  have hden' : (0 : ℚ) < den := Nat.cast_pos.2 hden
  have hpos : (0 : ℚ) < num / den := div_pos hnum' hden'
  have htwo : (2 : ℚ) ≠ 0 := by norm_num
  -- The leading bits of the operands confine the logarithm to two places.
  have hupper : (num : ℚ) / den < (2 : ℚ) ^ ((num.log2 : Int) - den.log2 + 1) := by
    have hnumLt : (num : ℚ) < 2 ^ (num.log2 + 1) := by exact_mod_cast Nat.lt_log2_self
    have hdenLe : (2 : ℚ) ^ den.log2 ≤ den := by exact_mod_cast Nat.log2_self_le hden.ne'
    have hexp : (num.log2 : Int) - den.log2 + 1 = ((num.log2 + 1 : Nat) : Int) - den.log2 := by
      push_cast
      ring
    rw [hexp, zpow_sub₀ htwo, zpow_natCast, zpow_natCast]
    exact div_lt_div₀ hnumLt hdenLe (by positivity) (by positivity)
  have hlower : (2 : ℚ) ^ ((num.log2 : Int) - den.log2 - 1) ≤ num / den := by
    have hnumLe : (2 : ℚ) ^ num.log2 ≤ num := by exact_mod_cast Nat.log2_self_le hnum.ne'
    have hdenLt : (den : ℚ) ≤ 2 ^ (den.log2 + 1) := by exact_mod_cast Nat.lt_log2_self.le
    have hexp : (num.log2 : Int) - den.log2 - 1 = num.log2 - ((den.log2 + 1 : Nat) : Int) := by
      push_cast
      ring
    rw [hexp, zpow_sub₀ htwo, zpow_natCast, zpow_natCast]
    exact div_le_div₀ hnum'.le hnumLe hden' hdenLt
  have hlt := (lt_zpow_iff hpos _).1 hupper
  have hle := (zpow_le_iff hpos _).1 hlower
  simp only [floorLog2, Nat.pow_eq, ← zpow_le_div_iff hden, zpow_le_iff hpos]
  split
  · omega
  · omega

/-! ### The nearest rank -/

/-- **Fractions of one value have one nearest rank.** -/
theorem nearestRank_congr {num den num' den' : Nat} (hnum : 0 < num) (hden : 0 < den)
    (hnum' : 0 < num') (hden' : 0 < den') (h : num * den' = num' * den) :
    nearestRank num den = nearestRank num' den' := by
  have hvalue : (num : ℚ) / den = num' / den' := by
    rw [div_eq_div_iff (Nat.cast_pos.2 hden).ne' (Nat.cast_pos.2 hden').ne']
    exact_mod_cast h
  have hlog : floorLog2 num den = floorLog2 num' den' := by
    rw [floorLog2_eq_log hnum hden, floorLog2_eq_log hnum' hden', hvalue]
  simp only [nearestRank, hlog, Nat.pow_eq]
  refine congrArg (_ + ·) (roundHalfEven_congr (by positivity) (by positivity) ?_)
  generalize (2 : Nat) ^ (-max (floorLog2 num' den' - 52) (-1074)).toNat = a
  generalize (2 : Nat) ^ (max (floorLog2 num' den' - 52) (-1074)).toNat = b
  calc num * a * (den' * b) = num * den' * (a * b) := by ring
    _ = num' * den * (a * b) := by rw [h]
    _ = num' * a * (den * b) := by ring

/-- **Fractions of one value are rounded alike.** -/
theorem ofFraction_congr {num den num' den' : Nat} (hden : 0 < den) (hden' : 0 < den')
    (h : num * den' = num' * den) (negative : Bool) :
    ofFraction negative num den = ofFraction negative num' den' := by
  rw [ofFraction, ofFraction]
  by_cases hnum : num = 0
  · have hnum' : num' = 0 := by
      rw [hnum, Nat.zero_mul] at h
      exact (Nat.mul_eq_zero.1 h.symm).resolve_right hden.ne'
    rw [hnum, hnum', if_pos rfl, if_pos rfl]
  · have hnum' : num' ≠ 0 := by
      rintro rfl
      rw [Nat.zero_mul] at h
      exact (Nat.mul_eq_zero.1 h).elim hnum hden'.ne'
    rw [if_neg hnum, if_neg hnum', nearestRank_congr (Nat.pos_of_ne_zero hnum) hden
      (Nat.pos_of_ne_zero hnum') hden' h]

/-- **Zeros at the end of a numeral** count as a power of ten. -/
theorem ofDecimal_mul_pow (negative : Bool) (digits j : Nat) (exponent : Int) :
    ofDecimal negative (digits * 10 ^ j) exponent = ofDecimal negative digits (exponent + j) := by
  by_cases hdigits : digits = 0
  · simp only [hdigits, Nat.zero_mul, ofDecimal, true_or, if_true]
  have hpos : 0 < digits := Nat.pos_of_ne_zero hdigits
  have hne : digits * 10 ^ j ≠ 0 := (Nat.mul_pos hpos (Nat.pow_pos (by decide))).ne'
  have hsize : ((Digits.ofNat (digits * 10 ^ j)).length : Int) + exponent =
      (Digits.ofNat digits).length + (exponent + j) := by
    rw [Digits.ofNat_mul_pow hpos, List.length_append, List.length_replicate]
    push_cast
    ring
  simp only [ofDecimal, hsize, hne, hdigits, false_or, Nat.pow_eq]
  refine if_congr Iff.rfl rfl (if_congr Iff.rfl rfl ?_)
  refine ofFraction_congr (by positivity) (by positivity) ?_ negative
  have hexp : j + exponent.toNat + (-(exponent + j)).toNat =
      (exponent + j).toNat + (-exponent).toNat := by omega
  calc digits * 10 ^ j * 10 ^ exponent.toNat * 10 ^ (-(exponent + ↑j)).toNat
      = digits * 10 ^ (j + exponent.toNat + (-(exponent + j)).toNat) := by ring
    _ = digits * 10 ^ ((exponent + j).toNat + (-exponent).toNat) := by rw [hexp]
    _ = digits * 10 ^ (exponent + ↑j).toNat * 10 ^ (-exponent).toNat := by ring

/-! ### Values of ranks -/

theorem binadeSize_eq : binadeSize = 2 ^ 52 := rfl

/-- The significand of a positive rank has at most 53 bits. -/
theorem significand_bounds {n : Nat} (hn : 0 < n) : 0 < significand n ∧ significand n < 2 ^ 53 := by
  have hmod : n % binadeSize < binadeSize := Nat.mod_lt n (by decide)
  rw [significand]
  split
  · rw [binadeSize_eq] at *
    omega
  · rw [binadeSize_eq] at *
    omega

/-- The exponents of significands. -/
theorem scale_bounds {n : Nat} (hn : n < rankLimit) : -1074 ≤ scale n ∧ scale n ≤ 971 := by
  have hquot : n / binadeSize < 2047 :=
    Nat.div_lt_of_lt_mul (by rwa [rankLimit, Nat.mul_comm] at hn)
  rw [scale]
  omega

/-- The quantum at the leading bit of the value of a rank is that of the rank. -/
theorem quantum_fraction {n : Nat} (hn : 0 < n) :
    max (floorLog2 (fraction n).1 (fraction n).2 - 52) (-1074) = scale n := by
  obtain ⟨hpos, hbits⟩ := significand_bounds hn
  have hnum : 0 < (fraction n).1 := Nat.mul_pos hpos (Nat.pow_pos (by decide))
  have hden : 0 < (fraction n).2 := Nat.pow_pos (by decide)
  have hvalue : ((fraction n).1 : ℚ) / (fraction n).2 = significand n * 2 ^ scale n := by
    simp only [fraction, Nat.pow_eq, zpow_eq_div]
    push_cast
    rw [mul_div_assoc]
  have hlog := floorLog2_eq_log hnum hden
  rw [hvalue] at hlog
  have hvaluePos : (0 : ℚ) < significand n * 2 ^ scale n := by
    exact mul_pos (Nat.cast_pos.2 hpos) (zpow_pos (by norm_num) _)
  have hbelow : ∀ k : Nat, significand n < 2 ^ k →
      floorLog2 (fraction n).1 (fraction n).2 < k + scale n := by
    intro k hk
    rw [hlog, ← lt_zpow_iff hvaluePos, zpow_add₀ (by norm_num), zpow_natCast]
    exact mul_lt_mul_of_pos_right (by exact_mod_cast hk) (zpow_pos (by norm_num) _)
  by_cases hsmall : n < binadeSize
  · have hscale : scale n = -1074 := by
      rw [scale, Nat.div_eq_of_lt hsmall]
      rfl
    have hlt := hbelow 52 (by rwa [significand, if_pos hsmall, ← binadeSize_eq])
    rw [hscale] at hlt ⊢
    push_cast at hlt
    omega
  · have hquot : 1 ≤ n / binadeSize := (Nat.one_le_div_iff (by decide)).2 (Nat.le_of_not_lt hsmall)
    have hscale : -1074 ≤ scale n := by
      rw [scale]
      omega
    have hlt := hbelow 53 hbits
    have hle : 52 + scale n ≤ floorLog2 (fraction n).1 (fraction n).2 := by
      have hfull : 2 ^ 52 ≤ significand n := by
        rw [significand, if_neg hsmall, ← binadeSize_eq]
        exact Nat.le_add_right _ _
      rw [hlog, ← zpow_le_iff hvaluePos, zpow_add₀ (by norm_num)]
      exact mul_le_mul_of_nonneg_right (by exact_mod_cast hfull) (zpow_pos (by norm_num) _).le
    push_cast at hlt
    omega

/-- **The value of a rank is rounded to the rank.** -/
theorem nearestRank_fraction {n : Nat} (hn : 0 < n) :
    nearestRank (fraction n).1 (fraction n).2 = n := by
  have hquantum := quantum_fraction hn
  have hround : roundHalfEven ((fraction n).1 * 2 ^ (-scale n).toNat)
      ((fraction n).2 * 2 ^ (scale n).toNat) = significand n := by
    have hnum : (fraction n).1 * 2 ^ (-scale n).toNat =
        significand n * ((fraction n).2 * 2 ^ (scale n).toNat) := by
      simp only [fraction, Nat.pow_eq]
      ring
    rw [hnum]
    exact roundHalfEven_of_mul _ (by simp only [fraction, Nat.pow_eq]; positivity)
  simp only [nearestRank, hquantum, Nat.pow_eq, hround]
  by_cases hsmall : n < binadeSize
  · simp [scale, significand, Nat.div_eq_of_lt hsmall, hsmall]
  · have hquot : 1 ≤ n / binadeSize := (Nat.one_le_div_iff (by decide)).2 (Nat.le_of_not_lt hsmall)
    have hscale : (scale n + 1074).toNat = n / binadeSize - 1 := by
      rw [scale]
      omega
    have hsplit := Nat.div_add_mod n binadeSize
    rw [hscale, significand, if_neg hsmall, Nat.sub_mul, Nat.one_mul, Nat.mul_comm]
    have hbinade : binadeSize ≤ binadeSize * (n / binadeSize) := Nat.le_mul_of_pos_right _ hquot
    omega

/-! ### Numerals that read back -/

/-- The exact numeral of a rank is within the range in which numerals are rounded. -/
theorem exact_size {n : Nat} (hn : 0 < n) (hlimit : n < rankLimit) :
    -330 ≤ ((Digits.ofNat (exact n).digits).length : Int) + (exact n).exponent ∧
      ((Digits.ofNat (exact n).digits).length : Int) + (exact n).exponent ≤ 330 := by
  obtain ⟨hpos, hbits⟩ := significand_bounds hn
  obtain ⟨hlow, hhigh⟩ := scale_bounds hlimit
  have hdigits : 0 < (exact n).digits := by
    simp only [exact, Nat.pow_eq]
    positivity
  have hupper := Digits.lt_pow_length (exact n).digits
  have hlower := Digits.pow_length_le hdigits
  generalize (Digits.ofNat (exact n).digits).length = len at hupper hlower ⊢
  simp only [exact, Nat.pow_eq] at hupper hlower ⊢
  rcases le_or_gt 0 (scale n) with hscale | hscale
  · have hneg : (-scale n).toNat = 0 := by omega
    rw [hneg, pow_zero, mul_one] at hlower
    have hlen : len - 1 < 330 := by
      refine (Nat.pow_lt_pow_iff_right (a := 10) (by decide)).1 ?_
      calc 10 ^ (len - 1) ≤ significand n * 2 ^ (scale n).toNat := hlower
        _ < 2 ^ 53 * 2 ^ (scale n).toNat := Nat.mul_lt_mul_of_pos_right hbits (by positivity)
        _ ≤ 2 ^ 53 * 2 ^ 971 := Nat.mul_le_mul_left _ (Nat.pow_le_pow_right (by decide) (by omega))
        _ ≤ 10 ^ 330 := by decide +kernel
    omega
  · obtain ⟨k, hk⟩ : ∃ k : Nat, scale n = -k := ⟨(-scale n).toNat, by omega⟩
    have hk' : k ≤ 1074 := by omega
    have hneg : (scale n).toNat = 0 := by omega
    have hkNat : (-scale n).toNat = k := by omega
    rw [hneg, hkNat, pow_zero, mul_one] at hupper hlower
    have hlenUpper : len - 1 < 16 + k := by
      refine (Nat.pow_lt_pow_iff_right (a := 10) (by decide)).1 ?_
      calc 10 ^ (len - 1) ≤ significand n * 5 ^ k := hlower
        _ < 2 ^ 53 * 5 ^ k := Nat.mul_lt_mul_of_pos_right hbits (by positivity)
        _ ≤ 10 ^ 16 * 10 ^ k :=
          Nat.mul_le_mul (by norm_num) (Nat.pow_le_pow_left (by decide) k)
        _ = 10 ^ (16 + k) := (pow_add 10 16 k).symm
    have hlenLower : k < len + 330 := by
      refine (Nat.pow_lt_pow_iff_right (a := 10) (by decide)).1 ?_
      calc 10 ^ k = 5 ^ k * 2 ^ k := mul_pow 5 2 k
        _ ≤ significand n * 5 ^ k * 2 ^ k :=
          Nat.mul_le_mul_right _ (Nat.le_mul_of_pos_left _ hpos)
        _ < 10 ^ len * 2 ^ k := Nat.mul_lt_mul_of_pos_right hupper (by positivity)
        _ ≤ 10 ^ len * 2 ^ 1074 := Nat.mul_le_mul_left _ (Nat.pow_le_pow_right (by decide) hk')
        _ ≤ 10 ^ len * 10 ^ 330 := Nat.mul_le_mul_left _ (by decide +kernel)
        _ = 10 ^ (len + 330) := (pow_add 10 len 330).symm
    omega

/-- **The exact numeral of a rank** reads back. -/
theorem readsBack_exact {n : Nat} (hn : 0 < n) (hlimit : n < rankLimit) :
    (exact n).readsBack n = true := by
  obtain ⟨hlow, hhigh⟩ := exact_size hn hlimit
  obtain ⟨hpos, -⟩ := significand_bounds hn
  have hdigits : (exact n).digits ≠ 0 := by
    simp only [exact, Nat.pow_eq]
    positivity
  have hnum : (fraction n).1 ≠ 0 := by
    simp only [fraction, Nat.pow_eq]
    positivity
  have hfraction : ofFraction false ((exact n).digits * 10 ^ (exact n).exponent.toNat)
      (10 ^ (-(exact n).exponent).toNat) = ofFraction false (fraction n).1 (fraction n).2 := by
    refine ofFraction_congr (by positivity) (by simp only [fraction, Nat.pow_eq]; positivity) ?_ _
    have hzero : (min (scale n) 0).toNat = 0 := by omega
    have hneg : (-min (scale n) 0).toNat = (-scale n).toNat := by omega
    have hten : (10 : Nat) ^ (-scale n).toNat = 2 ^ (-scale n).toNat * 5 ^ (-scale n).toNat :=
      mul_pow 2 5 _
    simp only [exact, fraction, Nat.pow_eq, hzero, hneg, hten]
    ring
  have hlowNot : ¬((Digits.ofNat (exact n).digits).length + (exact n).exponent < -330) := by omega
  have hhighNot : ¬(330 < (Digits.ofNat (exact n).digits).length + (exact n).exponent) := by omega
  rw [Decimal.readsBack, decide_eq_true_eq, ofDecimal]
  simp only [hdigits, hlowNot, hhighNot, or_self, if_false, Nat.pow_eq, hfraction]
  rw [ofFraction, if_neg hnum, nearestRank_fraction hn]

/-- A numeral that is tried reads back. -/
theorem readsBack_candidate {n count : Nat} {d : Decimal} (h : candidate? n count = some d) :
    d.readsBack n = true := by
  simp only [candidate?] at h
  split at h
  next hbelow => exact Option.some.inj h ▸ hbelow.1
  next =>
      split at h
      next habove => exact Option.some.inj h ▸ habove
      next => cases h

/-- **The shortest numeral of a rank** reads back. -/
theorem readsBack_shortest {n : Nat} (hn : 0 < n) (hlimit : n < rankLimit) :
    (shortest n).readsBack n = true := by
  have hfrom : ∀ tries count, (shortestFrom n tries count).readsBack n = true := by
    intro tries
    induction tries with
    | zero => exact fun _ => readsBack_exact hn hlimit
    | succ tries ih =>
        intro count
        rw [shortestFrom]
        cases hcandidate : candidate? n count with
        | none => exact ih (count + 1)
        | some d => exact readsBack_candidate hcandidate
  exact hfrom 17 1

end Binary64

end MemberAccess
