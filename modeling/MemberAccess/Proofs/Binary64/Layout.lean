import MemberAccess.Proofs.Binary64.Rounding

/-!
# Numerals with a point

The digits of a number are laid out with a point among or beside them, or with an exponent. Wherever
there is a point, there are digits on either side of it, and the exponent, if there is one, is
marked. Such a text denotes a number, by its digits and its exponent. The text of a number with a
point denotes that number.

## Main definitions

* `Binary64.ExponentText`: an exponent, or none, with its value.
* `Binary64.PointNumeral`: a numeral with a point, with the number that it denotes.

## Main results

* `Binary64.pointNumeral_layout`: digits that are laid out with a point denote their number.
* `Binary64.pointNumeral_magnitude`: the text of a magnitude denotes the magnitude.
-/

namespace MemberAccess

/-! ### Runs of digits -/

namespace Digits

/-- Digits, of which there is one at least. -/
structure IsRun (cs : List Char) : Prop where
  ne_nil : cs ≠ []
  digits : ∀ c ∈ cs, isDigit c = true

/-- A run of digits goes on with further digits. -/
theorem IsRun.append {xs ys : List Char} (hxs : IsRun xs) (hys : ∀ c ∈ ys, isDigit c = true) :
    IsRun (xs ++ ys) where
  ne_nil := List.append_ne_nil_of_left_ne_nil hxs.ne_nil ys
  digits := List.forall_mem_append.2 ⟨hxs.digits, hys⟩

/-- What is taken from a run of digits is one. -/
theorem IsRun.take {cs : List Char} (h : IsRun cs) {n : Nat} (hn : 0 < n) : IsRun (cs.take n) where
  ne_nil := by
    rw [Ne, List.take_eq_nil_iff, not_or]
    exact ⟨hn.ne', h.ne_nil⟩
  digits c hc := h.digits c (List.mem_of_mem_take hc)

/-- What is left of a run of digits is one. -/
theorem IsRun.drop {cs : List Char} (h : IsRun cs) {n : Nat} (hn : n < cs.length) :
    IsRun (cs.drop n) where
  ne_nil := by
    rw [Ne, List.drop_eq_nil_iff]
    exact Nat.not_le.2 hn
  digits c hc := h.digits c (List.mem_of_mem_drop hc)

theorem isRun_zero : IsRun ['0'] where
  ne_nil := List.cons_ne_nil _ _
  digits _ hc := List.mem_singleton.1 hc ▸ rfl

/-- A number is written as a run of digits. -/
theorem isRun_ofNat (n : Nat) : IsRun (ofNat n) := ⟨ofNat_ne_nil n, fun _ => isDigit_of_mem_ofNat⟩

/-- Zeros at the end count as a power of ten. -/
theorem toNat_append_zeros (cs : List Char) (j : Nat) :
    toNat (cs ++ Binary64.zeros j) = toNat cs * 10 ^ j := by
  induction j with
  | zero => simp [Binary64.zeros]
  | succ j ih =>
      have hzeros : Binary64.zeros (j + 1) = Binary64.zeros j ++ ['0'] := List.replicate_succ'
      have hdigit : ∀ n, append n '0' = 10 * n := fun n => rfl
      rw [hzeros, ← List.append_assoc, toNat_concat, ih, hdigit, Nat.pow_succ]
      ring

/-- Zeros at the front do not count. -/
theorem toNat_zeros_append (j : Nat) (cs : List Char) :
    toNat (Binary64.zeros j ++ cs) = toNat cs := by
  induction j with
  | zero => rfl
  | succ j ih => exact ih

end Digits

namespace Binary64

open Digits

theorem isDigit_of_mem_zeros {j : Nat} : ∀ c ∈ zeros j, isDigit c = true := by
  intro c hc
  rw [List.eq_of_mem_replicate hc]
  rfl

/-- Digits are those without the zeros at their end, and the zeros. -/
theorem exists_dropTrailingZeros (cs : List Char) : ∃ j, cs = dropTrailingZeros cs ++ zeros j := by
  have hsplit := List.takeWhile_append_dropWhile (p := (· = '0')) (l := cs.reverse)
  refine ⟨(cs.reverse.takeWhile (· = '0')).length, ?_⟩
  have hzeros : (cs.reverse.takeWhile (· = '0')).reverse =
      zeros (cs.reverse.takeWhile (· = '0')).length := by
    refine List.eq_replicate_iff.2 ⟨List.length_reverse, fun c hc => ?_⟩
    have hzeros := List.all_eq_true.1 (List.all_takeWhile (p := (· = '0')) (l := cs.reverse))
    exact of_decide_eq_true (hzeros c (List.mem_reverse.1 hc))
  calc cs = cs.reverse.reverse := cs.reverse_reverse.symm
    _ = (cs.reverse.takeWhile (· = '0') ++ cs.reverse.dropWhile (· = '0')).reverse := by rw [hsplit]
    _ = dropTrailingZeros cs ++ (cs.reverse.takeWhile (· = '0')).reverse := List.reverse_append
    _ = dropTrailingZeros cs ++ zeros (cs.reverse.takeWhile (· = '0')).length := by rw [hzeros]

/-! ### Numerals -/

/-- **An exponent,** or none. -/
inductive ExponentText : List Char → Int → Prop
  | none : ExponentText [] 0
  | positive {ds : List Char} (h : IsRun ds) : ExponentText ('e' :: ds) (toNat ds)
  | negative {ds : List Char} (h : IsRun ds) : ExponentText ('e' :: '-' :: ds) (-toNat ds)

/-- **A numeral with a point,** and digits on either side of it. -/
inductive PointNumeral : List Char → Binary64 → Prop
  | mk {whole part marks : List Char} {exponent : Int} (hwhole : IsRun whole) (hpart : IsRun part)
      (hmarks : ExponentText marks exponent) :
      PointNumeral (whole ++ '.' :: (part ++ marks)) (ofNumeral false whole part exponent)

/-- A numeral whose digits are those of a decimal, but for zeros at their end, denotes what the
decimal does. -/
theorem pointNumeral_of_parts {d : Decimal} {ds whole part marks : List Char} {exponent : Int}
    {j m : Nat} (hwhole : IsRun whole) (hpart : IsRun part) (hmarks : ExponentText marks exponent)
    (hdigits : d.digits = toNat ds * 10 ^ j) (hparts : toNat (whole ++ part) = toNat ds * 10 ^ m)
    (hexponent : exponent - part.length + m = d.exponent + j) :
    PointNumeral (whole ++ '.' :: (part ++ marks)) (ofDecimal false d.digits d.exponent) := by
  have hvalue : ofNumeral false whole part exponent = ofDecimal false d.digits d.exponent := by
    rw [ofNumeral, hparts, hdigits, ofDecimal_mul_pow, ofDecimal_mul_pow, hexponent]
  rw [← hvalue]
  exact .mk hwhole hpart hmarks

/-- The text of an exponent. -/
theorem exponentText_ofInt (exponent : Int) :
    ExponentText ('e' :: ((if exponent < 0 then ['-'] else []) ++ Digits.ofNat exponent.natAbs))
      exponent := by
  have hvalue := toNat_ofNat exponent.natAbs
  by_cases hneg : exponent < 0
  · have h := ExponentText.negative (isRun_ofNat exponent.natAbs)
    rw [hvalue] at h
    have habs : -(exponent.natAbs : Int) = exponent := by omega
    rw [habs] at h
    rw [if_pos hneg]
    exact h
  · have h := ExponentText.positive (isRun_ofNat exponent.natAbs)
    rw [hvalue] at h
    have habs : (exponent.natAbs : Int) = exponent := by omega
    rw [habs] at h
    rw [if_neg hneg]
    exact h

/-! ### Layouts -/

section Layout

variable {d : Decimal} {ds : List Char} {j : Nat}

/-- Digits around a point denote their number. -/
theorem pointNumeral_positional (hds : IsRun ds) (hdigits : d.digits = toNat ds * 10 ^ j)
    {point : Int} (hpoint : point = ds.length + d.exponent + j) :
    PointNumeral (positional ds point) (ofDecimal false d.digits d.exponent) := by
  have hlength : 0 < ds.length := List.length_pos_iff.2 hds.ne_nil
  rw [positional]
  by_cases hfront : point ≤ 0
  · -- All digits are behind the point.
    have hpart : IsRun (zeros (-point).toNat ++ ds) :=
      ⟨List.append_ne_nil_of_right_ne_nil _ hds.ne_nil,
        List.forall_mem_append.2 ⟨isDigit_of_mem_zeros, hds.digits⟩⟩
    have hparts : toNat (['0'] ++ (zeros (-point).toNat ++ ds)) = toNat ds * 10 ^ 0 := by
      have hall : ['0'] ++ (zeros (-point).toNat ++ ds) = zeros ((-point).toNat + 1) ++ ds := rfl
      rw [hall, toNat_zeros_append, Nat.pow_zero, Nat.mul_one]
    have hexponent : 0 - ((zeros (-point).toNat ++ ds).length : Int) + (0 : Nat) =
        d.exponent + j := by
      rw [List.length_append, zeros, List.length_replicate]
      omega
    have hnumeral := pointNumeral_of_parts isRun_zero hpart .none hdigits hparts hexponent
    rw [List.append_nil] at hnumeral
    rw [if_pos hfront]
    exact hnumeral
  by_cases hback : ds.length ≤ point.toNat
  · -- All digits are before the point.
    have hwhole : IsRun (ds ++ zeros (point.toNat - ds.length)) := hds.append isDigit_of_mem_zeros
    have hparts : toNat (ds ++ zeros (point.toNat - ds.length) ++ ['0']) =
        toNat ds * 10 ^ (point.toNat - ds.length + 1) := by
      have hall : ds ++ zeros (point.toNat - ds.length) ++ ['0'] =
          ds ++ zeros (point.toNat - ds.length + 1) := by
        rw [List.append_assoc, zeros, zeros, List.replicate_succ']
      rw [hall, toNat_append_zeros]
    have hexponent : 0 - (['0'].length : Int) + (point.toNat - ds.length + 1 : Nat) =
        d.exponent + j := by
      rw [List.length_singleton]
      omega
    rw [if_neg hfront, if_pos hback]
    exact pointNumeral_of_parts hwhole isRun_zero .none hdigits hparts hexponent
  · -- The point is among the digits.
    have hwhole : IsRun (ds.take point.toNat) := hds.take (by omega)
    have hpart : IsRun (ds.drop point.toNat) := hds.drop (by omega)
    have hparts : toNat (ds.take point.toNat ++ ds.drop point.toNat) = toNat ds * 10 ^ 0 := by
      rw [List.take_append_drop, Nat.pow_zero, Nat.mul_one]
    have hexponent : 0 - ((ds.drop point.toNat).length : Int) + (0 : Nat) = d.exponent + j := by
      rw [List.length_drop]
      omega
    have hnumeral := pointNumeral_of_parts hwhole hpart .none hdigits hparts hexponent
    rw [List.append_nil] at hnumeral
    rw [if_neg hfront, if_neg hback]
    exact hnumeral

/-- Two digits or more with an exponent denote their number. -/
theorem pointNumeral_scientific (hds : IsRun ds) (hmany : 1 < ds.length)
    (hdigits : d.digits = toNat ds * 10 ^ j) {exponent : Int}
    (hexponent : exponent = ds.length + d.exponent + j - 1) :
    PointNumeral (scientific ds exponent) (ofDecimal false d.digits d.exponent) := by
  have hwhole : IsRun (ds.take 1) := hds.take Nat.one_pos
  have hpart : IsRun (ds.drop 1) := hds.drop hmany
  have hparts : toNat (ds.take 1 ++ ds.drop 1) = toNat ds * 10 ^ 0 := by
    rw [List.take_append_drop, Nat.pow_zero, Nat.mul_one]
  have hshift : exponent - ((ds.drop 1).length : Int) + (0 : Nat) = d.exponent + j := by
    rw [List.length_drop]
    omega
  have hnumeral :=
    pointNumeral_of_parts hwhole hpart (exponentText_ofInt exponent) hdigits hparts hshift
  rw [scientific, if_neg (Nat.not_le.2 hmany)]
  simp only [List.append_assoc, List.cons_append] at hnumeral ⊢
  exact hnumeral

/-- One digit with an exponent is laid out without a point. -/
theorem point_notMem_scientific (hds : IsRun ds) (hone : ds.length ≤ 1) (exponent : Int) :
    '.' ∉ scientific ds exponent := by
  have hdigit : ∀ cs : List Char, (∀ c ∈ cs, isDigit c = true) → '.' ∉ cs :=
    fun cs hcs hmem => absurd (hcs '.' hmem) (by decide)
  have hfirst := hdigit (ds.take 1) fun c hc => hds.digits c (List.mem_of_mem_take hc)
  have hlast := hdigit (Digits.ofNat exponent.natAbs) (isRun_ofNat _).digits
  have hsign : '.' ∉ (if exponent < 0 then ['-'] else []) := by split <;> decide
  rw [scientific, if_pos hone]
  simp only [List.append_nil, List.mem_append, List.mem_cons, not_or]
  exact ⟨⟨hfirst, by decide, hsign⟩, hlast⟩

/-- **Digits that are laid out with a point** denote their number. -/
theorem pointNumeral_layout (hd : 0 < d.digits) (hpoint : '.' ∈ d.layout) :
    PointNumeral d.layout (ofDecimal false d.digits d.exponent) := by
  obtain ⟨j, hall⟩ := exists_dropTrailingZeros (Digits.ofNat d.digits)
  have hdigits : d.digits = toNat (dropTrailingZeros (Digits.ofNat d.digits)) * 10 ^ j := by
    conv_lhs => rw [← toNat_ofNat d.digits, hall]
    exact toNat_append_zeros _ j
  have hlength : (Digits.ofNat d.digits).length =
      (dropTrailingZeros (Digits.ofNat d.digits)).length + j := by
    conv_lhs => rw [hall]
    rw [List.length_append, zeros, List.length_replicate]
  have hds : IsRun (dropTrailingZeros (Digits.ofNat d.digits)) := by
    refine ⟨fun hnil => ?_, fun c hc => ?_⟩
    · rw [hnil] at hdigits
      have hzero : toNat [] = 0 := rfl
      rw [hzero, Nat.zero_mul] at hdigits
      omega
    · have hmem : c ∈ Digits.ofNat d.digits := by
        rw [hall]
        exact List.mem_append_left _ hc
      exact isDigit_of_mem_ofNat hmem
  rw [Decimal.layout] at hpoint ⊢
  simp only [hlength] at hpoint ⊢
  generalize dropTrailingZeros (Digits.ofNat d.digits) = ds at *
  split
  · exact pointNumeral_positional hds hdigits (by omega)
  next hwide =>
      rw [if_neg hwide] at hpoint
      have hmany : 1 < ds.length := by
        refine Nat.lt_of_not_le fun hone => ?_
        exact point_notMem_scientific hds hone _ hpoint
      exact pointNumeral_scientific hds hmany hdigits (by omega)

end Layout

/-! ### Magnitudes -/

/-- The digits of the shortest numeral of a positive magnitude do not vanish. -/
theorem shortest_pos {n : Nat} (hn : 0 < n) (hlimit : n < rankLimit) : 0 < (shortest n).digits := by
  refine Nat.pos_of_ne_zero fun hzero => ?_
  have hback := readsBack_shortest hn hlimit
  rw [Decimal.readsBack, decide_eq_true_eq, hzero, ofDecimal, if_pos (.inl rfl), ofRank, ofRank,
    dif_pos (by decide), dif_pos hlimit] at hback
  injection hback with _ hrank
  exact absurd (congrArg Fin.val hrank) hn.ne

/-- **The text of a magnitude denotes the magnitude,** if it has a point. -/
theorem pointNumeral_magnitude {n : Nat} (hlimit : n < rankLimit)
    (hpoint : '.' ∈ renderMagnitude n) : PointNumeral (renderMagnitude n) (ofRank false n) := by
  rw [renderMagnitude] at hpoint ⊢
  by_cases hn : n = 0
  · have hnumeral := PointNumeral.mk isRun_zero isRun_zero .none
    have hvalue : ofNumeral false ['0'] ['0'] 0 = ofRank false 0 := rfl
    rw [hvalue] at hnumeral
    rw [if_pos hn, hn]
    exact hnumeral
  · have hpos : 0 < n := Nat.pos_of_ne_zero hn
    have hback := readsBack_shortest hpos hlimit
    rw [Decimal.readsBack, decide_eq_true_eq] at hback
    rw [if_neg hn] at hpoint ⊢
    rw [← hback]
    exact pointNumeral_layout (shortest_pos hpos hlimit) hpoint

end Binary64

end MemberAccess
