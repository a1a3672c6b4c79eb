/-!
# Ranges of code points

A Unicode property is a set of code points, and is stored as the ascending list of its maximal
ranges. `Ranges.contains` stops at the first range that starts past the code point, so that a
look-up of an ASCII character reads only the head of the list.

## Main definitions

* `Ranges`: ascending, disjoint, inclusive ranges.
* `Ranges.contains`: membership of a code point.
-/

namespace MemberAccess.Text

/-- **Ranges of code points.** Each pair holds the first and the last code point of a range; the
pairs ascend and do not touch. -/
abbrev Ranges := List (Nat × Nat)

namespace Ranges

/-- Whether one of the ranges holds the code point `c`. -/
def contains : Ranges → Nat → Bool
  | [], _ => false
  | (first, last) :: more, c => if c < first then false else c ≤ last || contains more c

/-- The ranges ascend and leave a gap between each other, from `floor` on. -/
def Ascending (floor : Nat) : Ranges → Prop
  | [] => True
  | (first, last) :: more => floor ≤ first ∧ first ≤ last ∧ Ascending (last + 2) more

/-- In ascending ranges, stopping early loses nothing. -/
theorem contains_iff {floor : Nat} {rs : Ranges} (h : Ascending floor rs) (c : Nat) :
    contains rs c = true ↔ ∃ r ∈ rs, r.1 ≤ c ∧ c ≤ r.2 := by
  induction rs generalizing floor with
  | nil => simp [contains]
  | cons r more ih =>
    obtain ⟨first, last⟩ := r
    obtain ⟨-, hle, hmore⟩ := h
    have later : ∀ {f : Nat} {qs : Ranges}, Ascending f qs → ∀ q ∈ qs, f ≤ q.1 := by
      intro f qs hq
      induction qs generalizing f with
      | nil => simp
      | cons q qs ihq =>
        intro p hp
        obtain ⟨h1, h2, h3⟩ := hq
        rcases List.mem_cons.1 hp with rfl | hp
        · exact h1
        · have := ihq h3 p hp
          omega
    by_cases hlt : c < first
    · simp only [contains, hlt, if_true, Bool.false_eq_true, false_iff]
      rintro ⟨q, hq, hq1, -⟩
      rcases List.mem_cons.1 hq with rfl | hq
      · simp at hq1; omega
      · have := later hmore q hq
        omega
    · simp only [contains, hlt, if_false, Bool.or_eq_true, decide_eq_true_eq, ih hmore,
        List.mem_cons, exists_eq_or_imp]
      constructor
      · rintro (h | h)
        · exact Or.inl ⟨by omega, h⟩
        · exact Or.inr h
      · rintro (h | h)
        · exact Or.inl h.2
        · exact Or.inr h

end Ranges

end MemberAccess.Text
