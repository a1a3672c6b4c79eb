import Mathlib.Logic.Relation
import MemberAccess.Proofs.Registry.Crossing

/-!
# Crossing ends where wrappers form no cycle

`Registry.cross` gives up where a type comes up twice. If no type is inside itself, through whatever
wrappers, this never happens: the types that were seen lead to the type at hand, so a target that
was seen would be inside itself. So there is exactly one crossing from each type, and `cross` finds
it.

## Main definitions

* `Registry.Acyclic`: no type is inside itself.

## Main results

* `Registry.exists_cross`: crossing ends from each type.
* `Registry.Crosses.unique`: there is at most one crossing from a description.
* `Registry.Crosses.cross_eq`: the crossing of a type is found.
* `Registry.acyclic_iff_crosses`: no type is inside itself exactly if crossing ends from each.
-/

namespace MemberAccess

variable {U : Universe}

open Relation

namespace Registry

/-- A type is a wrapper around another. -/
def Wraps (r : Registry U) (s t : U.Ty) : Prop :=
  ∃ w, (r.info s).wrapper? = some w ∧ w.target = t

/-- **No cycle of wrappers:** no type is inside itself, through one wrapper or more. -/
def Acyclic (r : Registry U) : Prop :=
  ∀ t, ¬TransGen r.Wraps t t

variable {r : Registry U}

/-! ### Crossing ends -/

/-- Crossing ends if no type on the way is inside itself, and the listed types that are not unseen
lead to the type at hand. -/
theorem crossFrom_isSome {unseen : List U.Ty} {t : U.Ty}
    (hway : ∀ s, ReflTransGen r.Wraps t s → ¬TransGen r.Wraps s s)
    (hseen : ∀ s ∈ r.types, s ∉ unseen → ReflTransGen r.Wraps s t) :
    (r.crossFrom unseen (r.info t)).isSome = true := by
  generalize hi : r.info t = i
  fun_induction crossFrom r unseen i generalizing t with
  | case1 => rfl
  | case2 unseen i w hw _ ih =>
      have hstep : r.Wraps t w.target := ⟨w, hi ▸ hw, rfl⟩
      rw [Option.isSome_map]
      refine ih (fun s hs => hway s (.head hstep hs)) (fun s hs hnot => ?_) rfl
      by_cases heq : s = w.target
      · exact heq ▸ .refl
      · have hseen' : s ∉ unseen := fun h => hnot ((List.mem_erase_of_ne heq).2 h)
        exact (hseen s hs hseen').tail hstep
  | case3 unseen i w hw hunseen hlisted =>
      have hstep : r.Wraps t w.target := ⟨w, hi ▸ hw, rfl⟩
      have hinside := TransGen.tail' (hseen w.target hlisted hunseen) hstep
      exact absurd hinside (hway w.target (.single hstep))
  | case4 => rfl

/-- Crossing ends from a type if no type on the way is inside itself. -/
theorem exists_cross_of_way {t : U.Ty}
    (hway : ∀ s, ReflTransGen r.Wraps t s → ¬TransGen r.Wraps s s) :
    ∃ ws j, r.cross (r.info t) = some (ws, j) := by
  have hsome : (r.cross (r.info t)).isSome = true :=
    crossFrom_isSome hway fun s hs hnot => absurd hs hnot
  obtain ⟨⟨ws, j⟩, hcross⟩ := Option.isSome_iff_exists.1 hsome
  exact ⟨ws, j, hcross⟩

/-- **Crossing ends** from each type. -/
theorem exists_cross (hr : r.Acyclic) (t : U.Ty) : ∃ ws j, r.cross (r.info t) = some (ws, j) :=
  exists_cross_of_way fun s _ => hr s

/-- At most each unseen type is crossed, and one that is not listed. -/
theorem length_le_of_crossFrom {unseen : List U.Ty} {i j : TypeInfo U} {ws : List (Wrapper U)}
    (h : r.crossFrom unseen i = some (ws, j)) : ws.length ≤ unseen.length + 1 := by
  fun_induction crossFrom r unseen i generalizing ws j with
  | case1 =>
      obtain ⟨rfl, -⟩ : [] = ws ∧ _ := by simpa using h
      exact Nat.zero_le _
  | case2 unseen i w hw hmem ih =>
      obtain ⟨⟨vs, k⟩, hinner, heq⟩ := Option.map_eq_some_iff.1 h
      obtain ⟨rfl, -⟩ : w :: vs = ws ∧ k = j := by simpa using heq
      have hvs := ih hinner
      have hpos := List.length_pos_of_mem hmem
      rw [List.length_erase_of_mem hmem] at hvs
      rw [List.length_cons]
      omega
  | case3 => simp only [reduceCtorEq] at h
  | case4 =>
      obtain ⟨rfl, -⟩ : [_] = ws ∧ _ := by simpa using h
      exact Nat.succ_le_succ (Nat.zero_le _)

/-! ### There is one crossing -/

/-- **Crossings are unique.** -/
theorem Crosses.unique {i j k : TypeInfo U} {ws vs : List (Wrapper U)} (h : r.Crosses i ws j)
    (h' : r.Crosses i vs k) : ws = vs ∧ j = k := by
  induction h generalizing vs k with
  | stop hstop =>
      cases h' with
      | stop _ => exact ⟨rfl, rfl⟩
      | enter hw _ => exact absurd (hstop.symm.trans hw) (by simp)
  | enter hw _ ih =>
      cases h' with
      | stop hstop => exact absurd (hstop.symm.trans hw) (by simp)
      | enter hw' inner =>
          obtain rfl := Option.some.inj (hw.symm.trans hw')
          obtain ⟨rfl, rfl⟩ := ih inner
          exact ⟨rfl, rfl⟩

/-! ### A crossing rules out cycles -/

/-- From the types inside another, its crossing goes on with fewer wrappers. -/
theorem Crosses.exists_inner {s t : U.Ty} {j : TypeInfo U} {ws : List (Wrapper U)}
    (h : r.Crosses (r.info t) ws j) (hinside : TransGen r.Wraps t s) :
    ∃ vs, r.Crosses (r.info s) vs j ∧ vs.length < ws.length := by
  have hstep : ∀ {t s : U.Ty} {ws : List (Wrapper U)}, r.Crosses (r.info t) ws j →
      r.Wraps t s → ∃ vs, r.Crosses (r.info s) vs j ∧ vs.length < ws.length := by
    rintro t s ws h ⟨w, hw, rfl⟩
    cases h with
    | stop hstop => exact absurd (hstop.symm.trans hw) (by simp)
    | enter hw' inner =>
        obtain rfl := Option.some.inj (hw.symm.trans hw')
        exact ⟨_, inner, Nat.lt_succ_self _⟩
  induction hinside with
  | single hwraps => exact hstep h hwraps
  | tail _ hwraps ih =>
      obtain ⟨vs, hvs, hlt⟩ := ih
      obtain ⟨us, hus, hlt'⟩ := hstep hvs hwraps
      exact ⟨us, hus, Nat.lt_trans hlt' hlt⟩

/-- A type that can be crossed is not inside itself. -/
theorem Crosses.not_inside {t : U.Ty} {j : TypeInfo U} {ws : List (Wrapper U)}
    (h : r.Crosses (r.info t) ws j) : ¬TransGen r.Wraps t t := by
  intro hinside
  obtain ⟨vs, hvs, hlt⟩ := h.exists_inner hinside
  obtain ⟨rfl, -⟩ := h.unique hvs
  exact Nat.lt_irrefl _ hlt

/-- **Each crossing is found** by `cross`, whatever cycles there are elsewhere. -/
theorem Crosses.cross_eq {t : U.Ty} {j : TypeInfo U} {ws : List (Wrapper U)}
    (h : r.Crosses (r.info t) ws j) : r.cross (r.info t) = some (ws, j) := by
  have hway : ∀ s, ReflTransGen r.Wraps t s → ¬TransGen r.Wraps s s := by
    intro s hs
    rcases reflTransGen_iff_eq_or_transGen.1 hs with rfl | hinside
    · exact h.not_inside
    · obtain ⟨vs, hvs, -⟩ := h.exists_inner hinside
      exact hvs.not_inside
  obtain ⟨vs, k, hcross⟩ := exists_cross_of_way hway
  obtain ⟨rfl, rfl⟩ := h.unique (crosses_of_cross hcross)
  exact hcross

/-- Types that wrap one another are crossed up to one that wraps none. -/
theorem exists_crosses_of_wraps {s t : U.Ty} (h : ReflTransGen r.Wraps s t)
    (ht : (r.info t).wrapper? = none) : ∃ ws, r.Crosses (r.info s) ws (r.info t) := by
  induction h using ReflTransGen.head_induction_on with
  | refl => exact ⟨[], .stop ht⟩
  | head hwraps _ ih =>
      obtain ⟨w, hw, rfl⟩ := hwraps
      obtain ⟨ws, hws⟩ := ih
      exact ⟨w :: ws, .enter hw hws⟩

/-- **No wrappers form a cycle exactly if each type can be crossed.** -/
theorem acyclic_iff_crosses : r.Acyclic ↔ ∀ t, ∃ ws j, r.Crosses (r.info t) ws j := by
  constructor
  · intro hr t
    obtain ⟨ws, j, hcross⟩ := exists_cross hr t
    exact ⟨ws, j, crosses_of_cross hcross⟩
  · intro h t
    obtain ⟨ws, j, hcross⟩ := h t
    exact hcross.not_inside

end Registry

end MemberAccess
