import MemberAccess.Accessor.Chain
import MemberAccess.Proofs.Path.Resolution

/-!
# Walks along typed members

The handles of a member take any value and check its type, so on their own they can fail. Along
members that lead from the type of a value to another type (`Registry.Leads`) they do not: every
walk arrives at a value of the type at the end, or stops at an empty wrapper.

## Main results

* `ErasedHandles.exists_read`, `ErasedHandles.exists_readMut`: the handles of a member work on its
  owners.
* `Registry.Leads.readSteps`, `Registry.Leads.readMutSteps`: where a walk ends.
-/

namespace MemberAccess

variable {U : Universe} {r : Registry U}

/-! ### Handles on their owners -/

namespace ErasedHandles

/-- A member can be read in each of its owners. -/
theorem exists_read {h : ErasedHandles U} {d : Dyn U} (hty : h.owner = d.ty) :
    ∃ v : U.Val h.value, h.read d = some ⟨h.value, v⟩ := by
  obtain ⟨t, x⟩ := d
  obtain rfl : h.owner = t := hty
  exact ⟨h.handles.get x, h.read_self x⟩

/-- What is read is of the type of the member. -/
theorem ty_of_read {h : ErasedHandles U} {d v : Dyn U} (hv : h.read d = some v) :
    v.ty = h.value := by
  obtain ⟨o, -, rfl⟩ := Option.map_eq_some_iff.1 hv
  rfl

/-- A member with a mutable borrow can be borrowed in each of its owners. -/
theorem exists_readMut {h : ErasedHandles U} {d : Dyn U} (hty : h.owner = d.ty)
    (hmut : h.hasGetMut = true) : ∃ s, h.readMut d = some s ∧ s.ty = h.value := by
  obtain ⟨borrow, hborrow⟩ := Option.isSome_iff_exists.1 hmut
  obtain ⟨t, x⟩ := d
  obtain rfl : h.owner = t := hty
  exact ⟨_, readMut_self hborrow x, rfl⟩

/-- What is borrowed is of the type of the member. -/
theorem ty_of_readMut {h : ErasedHandles U} {d : Dyn U} {s : Slot U (U.Val d.ty)}
    (hs : h.readMut d = some s) : s.ty = h.value := by
  rw [readMut] at hs
  cases hborrow : h.handles.getMut with
  | none => simp only [hborrow, reduceCtorEq] at hs
  | some borrow =>
      by_cases hty : d.ty = h.owner
      · simp only [hborrow, dif_pos hty, Option.some.injEq] at hs
        exact hs ▸ rfl
      · simp only [hborrow, dif_neg hty, reduceCtorEq] at hs

end ErasedHandles

/-! ### The steps of a chain -/

/-- The step that reads a member of a path at a position. -/
def Descriptor.step (d : Descriptor U) (index : Nat) : Step U :=
  ⟨d.member, index, d.unwraps⟩

namespace Chain

/-- The steps that read the members `ds`, the first of which is at the position `index`. -/
def stepsFrom (index : Nat) : List (Descriptor U) → List (Step U)
  | [] => []
  | d :: ds => d.step index :: stepsFrom (index + 1) ds

/-- The steps of more members follow those of the first, and are counted on. -/
theorem stepsFrom_append (index : Nat) (ds es : List (Descriptor U)) :
    stepsFrom index (ds ++ es) = stepsFrom index ds ++ stepsFrom (index + ds.length) es := by
  induction ds generalizing index with
  | nil => rfl
  | cons d ds ih =>
      rw [List.cons_append, stepsFrom, stepsFrom, ih, List.length_cons, List.cons_append,
        Nat.add_assoc, Nat.add_comm 1]

/-- The steps of the chain of a path count its members from zero. -/
theorem steps_ofDescriptors (ds : List (Descriptor U)) :
    (ofDescriptors ds).steps = stepsFrom 0 ds := by
  have hfrom : ∀ (k : Nat) (es : List (Descriptor U)),
      es.mapIdx (fun index d => d.step (k + index)) = stepsFrom k es := by
    intro k es
    induction es generalizing k with
    | nil => rfl
    | cons e es ih =>
        rw [List.mapIdx_cons, stepsFrom, ← ih (k + 1), Nat.add_zero]
        simp only [Nat.add_comm, Nat.add_left_comm]
  have h := hfrom 0 ds
  simp only [Nat.zero_add] at h
  exact h

/-- A walk through two runs of steps goes through one and then through the other. -/
theorem readSteps_append (xs ys : List (Step U)) (d : Dyn U) :
    readSteps (xs ++ ys) d = (readSteps xs d).bind (readSteps ys) := by
  induction xs generalizing d with
  | nil => rfl
  | cons s more ih =>
      simp only [List.cons_append, readSteps]
      cases hread : s.member.handles.read d with
      | none => rfl
      | some v =>
          cases hopen : Wrapper.openAll s.unwraps v with
          | none => simp only [hopen, Except.bind]
          | some inner => simp only [hopen, ih inner]

end Chain

/-! ### Where a walk ends -/

/-- Whether a failure is that of a missing value, which depends on the root alone. -/
def Failure.IsMissing (f : Failure) : Prop :=
  ∃ member index, f = .missingIntermediate member index

/-- What a step finds missing is reported as missing. -/
theorem Step.isMissing_missing (s : Step U) : s.missing.IsMissing :=
  ⟨s.member.name, s.index, rfl⟩

/-- **A walk of reads along fitting members** arrives at a value of the type that they lead to, or
stops because a value is missing. -/
theorem Registry.Leads.readSteps (hr : r.WellTyped) {t u : U.Ty} {ds : List (Descriptor U)}
    (h : r.Leads t ds u) {d : Dyn U} (hd : d.ty = t) (index : Nat) :
    (∃ e, Chain.readSteps (Chain.stepsFrom index ds) d = .ok e ∧ e.ty = u) ∨
      ∃ f, Chain.readSteps (Chain.stepsFrom index ds) d = .error f ∧ f.IsMissing := by
  induction h generalizing d index with
  | nil => exact .inl ⟨d, rfl, hd⟩
  | @cons t s u step ds howner hcross _ ih =>
      obtain ⟨value, hvalue⟩ := ErasedHandles.exists_read (howner.trans hd.symm)
      simp only [Chain.stepsFrom, Chain.readSteps, Descriptor.step, hvalue]
      cases hopen : Wrapper.openAll step.unwraps ⟨step.member.handles.value, value⟩ with
      | none => exact .inr ⟨_, rfl, Step.isMissing_missing _⟩
      | some inner =>
          exact ih (hr.ty_eq_of_info_eq (hcross.openAll hr hopen)) (index + 1)

/-- **A walk of mutable borrows along fitting members** that can be borrowed arrives at a slot of
the type that they lead to, or stops because a value is missing. -/
theorem Registry.Leads.readMutSteps (hr : r.WellTyped) {t u : U.Ty} {ds : List (Descriptor U)}
    (h : r.Leads t ds u) (hmut : ∀ e ∈ ds, e.member.isTraversable = true) {d : Dyn U}
    (hd : d.ty = t) (index : Nat) :
    (∃ s, Chain.readMutSteps (Chain.stepsFrom index ds) d = .ok s ∧ s.ty = u) ∨
      ∃ f after, Chain.readMutSteps (Chain.stepsFrom index ds) d = .error (f, after) ∧
        f.IsMissing := by
  induction h generalizing d index with
  | nil => exact .inl ⟨Slot.whole d, rfl, hd⟩
  | @cons t s u step ds howner hcross _ ih =>
      obtain ⟨hstep, hmore⟩ := List.forall_mem_cons.1 hmut
      obtain ⟨part, hpart, hvalue⟩ := ErasedHandles.exists_readMut (howner.trans hd.symm) hstep
      simp only [Chain.stepsFrom, Chain.readMutSteps, Descriptor.step, hpart]
      cases hopen : Wrapper.openAllMut step.unwraps part.dyn with
      | error content => exact .inr ⟨_, _, rfl, Step.isMissing_missing _⟩
      | ok inner =>
          have hpartTy : part.dyn.ty = step.member.value := hvalue
          have hinner : inner.dyn.ty = s :=
            hr.ty_eq_of_info_eq (Registry.Crosses.openAllMut hr (hpartTy ▸ hcross) hopen)
          rcases ih hmore hinner (index + 1) with ⟨slot, hslot, hty⟩ | ⟨f, after, hfail, hf⟩
          · simp only [hslot]
            exact .inl ⟨_, rfl, hty⟩
          · simp only [hfail]
            exact .inr ⟨_, _, rfl, hf⟩

end MemberAccess
