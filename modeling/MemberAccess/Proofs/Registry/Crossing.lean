import MemberAccess.Accessor.Chain

/-!
# Crossing wrappers, as a relation

`Registry.cross` follows the wrappers from a description on and gives up where they go round in a
circle. What it finds is stated here without its book-keeping of unseen types: `Registry.Crosses`
relates a description to the wrappers around it and to the description inside them. A registry is
well typed if the description of a type is one of that type, and if opening a wrapper gives a value
of the wrapper's target; then opening the crossed wrappers one after the other ends at a value that
the last description describes.

## Main results

* `Registry.crosses_of_cross`: what `cross` finds is a crossing.
* `Registry.Crosses.openAll`, `Registry.Crosses.openAllMut`: opening the wrappers of a crossing
  leads to a value of the type at its end, or stops at an empty wrapper.
-/

namespace MemberAccess

variable {U : Universe}

/-! ### Well-typed registries -/

/-- **A well-typed registry:** the description of a type carries that type, and the wrappers of the
registry, applied to values of the types that they are listed for, give values of their targets. -/
structure Registry.WellTyped (r : Registry U) : Prop where
  id_info (t : U.Ty) : (r.info t).id = t
  unwrap_target {t : U.Ty} {w : Wrapper U} (hw : (r.info t).wrapper? = some w) (x : U.Val t)
    {d : Dyn U} (hd : w.unwrap ⟨t, x⟩ = some d) : d.ty = w.target
  unwrapMut_target {t : U.Ty} {w : Wrapper U} (hw : (r.info t).wrapper? = some w) (x : U.Val t)
    {s : Slot U (U.Val t)} (hs : w.unwrapMut ⟨t, x⟩ = some s) : s.ty = w.target

/-- In a well-typed registry, types with the same description are the same. -/
theorem Registry.WellTyped.ty_eq_of_info_eq {r : Registry U} (hr : r.WellTyped) {s t : U.Ty}
    (h : r.info s = r.info t) : s = t := by
  rw [← hr.id_info s, h, hr.id_info]

/-! ### Crossings -/

/-- **A crossing:** the wrappers from a description on, outermost first, and the description of the
first type on the way that is no wrapper. -/
inductive Registry.Crosses (r : Registry U) : TypeInfo U → List (Wrapper U) → TypeInfo U → Prop
  | stop {i : TypeInfo U} (h : i.wrapper? = none) : Crosses r i [] i
  | enter {i j : TypeInfo U} {w : Wrapper U} {ws : List (Wrapper U)} (h : i.wrapper? = some w)
      (inner : Crosses r (r.info w.target) ws j) : Crosses r i (w :: ws) j

namespace Registry

variable {r : Registry U}

/-- A type that is not listed is a leaf, and so no wrapper. -/
theorem wrapper?_info_of_notMem {t : U.Ty} (h : t ∉ r.types) : (r.info t).wrapper? = none := by
  have hget : r.cell.get? t = none := by
    rw [InfoCell.get?, Option.map_eq_none_iff, List.find?_eq_none]
    intro entry hentry heq
    exact h (List.mem_map.2 ⟨entry, hentry, of_decide_eq_true heq⟩)
  simp only [info, hget, Option.getD_none, TypeInfo.leaf, TypeInfo.wrapper?]

/-- What is found through listed types out of `unseen` is a crossing. -/
theorem crosses_of_crossFrom {unseen : List U.Ty} {i j : TypeInfo U} {ws : List (Wrapper U)}
    (h : r.crossFrom unseen i = some (ws, j)) : r.Crosses i ws j := by
  fun_induction crossFrom r unseen i generalizing ws j with
  | case1 unseen i hw =>
      obtain ⟨rfl, rfl⟩ : [] = ws ∧ i = j := by simpa using h
      exact .stop hw
  | case2 unseen i w hw hmem ih =>
      obtain ⟨⟨vs, k⟩, hinner, heq⟩ := Option.map_eq_some_iff.1 h
      obtain ⟨rfl, rfl⟩ : w :: vs = ws ∧ k = j := by simpa using heq
      exact .enter hw (ih hinner)
  | case3 unseen i w hw hmem hlisted => simp only [reduceCtorEq] at h
  | case4 unseen i w hw hmem hlisted =>
      obtain ⟨rfl, rfl⟩ : [w] = ws ∧ r.info w.target = j := by simpa using h
      exact .enter hw (.stop (wrapper?_info_of_notMem hlisted))

/-- **What `cross` finds is a crossing.** -/
theorem crosses_of_cross {i j : TypeInfo U} {ws : List (Wrapper U)}
    (h : r.cross i = some (ws, j)) : r.Crosses i ws j :=
  crosses_of_crossFrom h

/-- A crossing from the description of a type ends at the description of a type. -/
theorem Crosses.exists_info {t : U.Ty} {j : TypeInfo U} {ws : List (Wrapper U)}
    (h : r.Crosses (r.info t) ws j) : ∃ s, j = r.info s := by
  generalize hi : r.info t = i at h
  induction h generalizing t with
  | stop _ => exact ⟨t, hi.symm⟩
  | enter _ _ ih => exact ih rfl

/-- **Wrappers on the way** from a type to another, outermost first. -/
inductive Enters (r : Registry U) : U.Ty → List (Wrapper U) → U.Ty → Prop
  | nil {t : U.Ty} : Enters r t [] t
  | cons {t u : U.Ty} {w : Wrapper U} {ws : List (Wrapper U)} (hw : (r.info t).wrapper? = some w)
      (inner : Enters r w.target ws u) : Enters r t (w :: ws) u

/-- A crossing enters its first wrappers, and then crosses the others. -/
theorem Crosses.append_inv {t : U.Ty} {j : TypeInfo U} {ws vs : List (Wrapper U)}
    (h : r.Crosses (r.info t) (ws ++ vs) j) :
    ∃ u, r.Enters t ws u ∧ r.Crosses (r.info u) vs j := by
  induction ws generalizing t with
  | nil => exact ⟨t, .nil, h⟩
  | cons w ws ih =>
      cases h with
      | enter hw inner =>
          obtain ⟨u, henters, hcrosses⟩ := ih inner
          exact ⟨u, .cons hw henters, hcrosses⟩

/-- The wrappers of a crossing lead to the type where it ends. -/
theorem Crosses.enters (hr : r.WellTyped) {s t : U.Ty} {ws : List (Wrapper U)}
    (h : r.Crosses (r.info t) ws (r.info s)) : r.Enters t ws s := by
  rw [← List.append_nil ws] at h
  obtain ⟨u, henters, hcrosses⟩ := h.append_inv
  generalize hi : r.info s = i at hcrosses
  cases hcrosses with
  | stop _ => exact hr.ty_eq_of_info_eq hi ▸ henters

/-! ### Opening the wrappers of a crossing -/

/-- Opening the wrappers of a crossing from the type of a value, if none is empty, gives a value of
the type where the crossing ends. -/
theorem Crosses.openAll (hr : r.WellTyped) {d e : Dyn U} {j : TypeInfo U} {ws : List (Wrapper U)}
    (h : r.Crosses (r.info d.ty) ws j) (he : Wrapper.openAll ws d = some e) :
    r.info e.ty = j := by
  generalize hi : r.info d.ty = i at h
  induction h generalizing d with
  | stop _ =>
      obtain rfl : d = e := by simpa [Wrapper.openAll] using he
      exact hi
  | @enter i j w ws hw _ ih =>
      obtain ⟨inner, hinner, hrest⟩ := Option.bind_eq_some_iff.1 he
      have hty : inner.ty = w.target := hr.unwrap_target (hi ▸ hw) d.val hinner
      exact ih hrest (congrArg r.info hty)

/-- Opening the wrappers of a crossing for a mutable borrow, if none is empty, gives a slot of the
type where the crossing ends. -/
theorem Crosses.openAllMut (hr : r.WellTyped) {d : Dyn U} {s : Slot U (U.Val d.ty)}
    {j : TypeInfo U} {ws : List (Wrapper U)} (h : r.Crosses (r.info d.ty) ws j)
    (hs : Wrapper.openAllMut ws d = .ok s) : r.info s.ty = j := by
  generalize hi : r.info d.ty = i at h
  induction h generalizing d with
  | stop _ =>
      obtain rfl : Slot.whole d = s := by simpa [Wrapper.openAllMut] using hs
      exact hi
  | @enter i j w ws hw _ ih =>
      rw [Wrapper.openAllMut] at hs
      cases hinner : w.unwrapMut d with
      | none => simp only [hinner, reduceCtorEq] at hs
      | some inner =>
          have hty : inner.ty = w.target := hr.unwrapMut_target (hi ▸ hw) d.val hinner
          cases hpart : Wrapper.openAllMut ws inner.dyn with
          | error content => simp only [hinner, hpart, reduceCtorEq] at hs
          | ok part =>
              simp only [hinner, hpart, Except.ok.injEq] at hs
              subst hs
              have hend : r.info part.ty = j := ih hpart (congrArg r.info hty)
              exact hend

end Registry

end MemberAccess
