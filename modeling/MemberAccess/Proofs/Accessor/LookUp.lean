import Mathlib.Data.Nat.Find
import MemberAccess.Accessor.Compile
import MemberAccess.Proofs.Registry.Lawful

/-!
# Look-up by name

An accessor resolves its path once, on types. The same member can be found anew for each root, on
values: at each name the description of the type that the value really has is asked for, wrappers
are opened as long as it is one and a member has been read before, and the name is looked up in
the table of the composite. Nothing is compared or remembered in advance, and nothing but the
values tells when the wrappers end, so a look-up may go on for ever. Its outcome is the one that is
reached within the fewest steps, if one is.

A write by look-up borrows the owner of the last member in the same way, and then assigns the
member through its setter.

## Main definitions

* `eventually`: the outcome within the fewest steps.
* `Registry.lookUp`: the value under a list of names.
* `Registry.borrowOwner`: the value in which the name after a list of names is looked up, as a slot.
* `Registry.write`: assigns the member under a list of names.
* `Registry.SameComponents`: roots that differ in the books of one owner at most.
-/

namespace MemberAccess

variable {U : Universe}

/-- **Why a look-up ends without a value:** a walk fails, or a name is not found. -/
inductive LookUpError where
  | failure (f : Failure)
  | invalid (e : InvalidPath)

/-- The member found under a name in the table of a composite. -/
def TypeInfo.member? (i : TypeInfo U) (name : String) : Except InvalidPath (Member U) :=
  match i.composite? with
  | none => .error (.noMembers i.name name)
  | some table =>
    match table.find? name with
    | none => .error (.unknownMember i.name name)
    | some m => .ok m

/-- The outcome of a borrow in a part of a whole, as one in the whole. -/
def Slot.within {ε A B : Type} (f : A → B) : Except (ε × A) (Slot U A) → Except (ε × B) (Slot U B)
  | .error (e, a) => .error (e, f a)
  | .ok s => .ok (s.map f)

/-- To rebuild two wholes, one inside the other, is to rebuild the outer one. -/
theorem Slot.within_comp {ε A B C : Type} (f : A → B) (g : B → C) :
    Slot.within (U := U) (ε := ε) g ∘ Slot.within f = Slot.within (g ∘ f) := by
  funext outcome
  cases outcome <;> rfl

/-! ### Outcomes that are reached -/

/-- **The outcome within the fewest steps,** if there is one within any number of them. -/
noncomputable def eventually {α : Type} (within : Nat → Option α) : Option α :=
  open Classical in
  if h : ∃ n, (within n).isSome = true then within (Nat.find h) else none

section

variable {α β : Type} {within : Nat → Option α}

/-- The outcome is the one within a number of steps that suffices, if fewer do not. -/
theorem eventually_of_least {n : Nat} (hn : (within n).isSome = true)
    (hleast : ∀ k < n, within k = none) : eventually within = within n := by
  classical
  have h : ∃ n, (within n).isSome = true := ⟨n, hn⟩
  have hfind : Nat.find h = n := by
    refine (Nat.find_eq_iff h).2 ⟨hn, fun k hk => ?_⟩
    rw [hleast k hk]
    exact Bool.false_ne_true
  rw [eventually, dif_pos h, hfind]

/-- There is no outcome if no number of steps suffices. -/
theorem eventually_of_none (h : ∀ n, within n = none) : eventually within = none := by
  rw [eventually, dif_neg]
  rintro ⟨n, hn⟩
  rw [h n] at hn
  cases hn

/-- Either some number of steps is the first to suffice, or none does. -/
theorem exists_least_or_none (within : Nat → Option α) :
    (∃ n, (within n).isSome = true ∧ ∀ k < n, within k = none) ∨ ∀ n, within n = none := by
  classical
  by_cases h : ∃ n, (within n).isSome = true
  · refine .inl ⟨Nat.find h, Nat.find_spec h, fun k hk => ?_⟩
    exact Option.not_isSome_iff_eq_none.1 (Nat.find_min h hk)
  · exact .inr fun n => Option.not_isSome_iff_eq_none.1 fun hn => h ⟨n, hn⟩

/-- An outcome that any number of steps has is reached. -/
theorem eventually_some (a : α) : eventually (fun _ => some a) = some a :=
  eventually_of_least (n := 0) rfl fun _ hk => absurd hk (Nat.not_lt_zero _)

/-- No outcome is reached without a step. -/
theorem eventually_succ (hzero : within 0 = none) :
    eventually within = eventually fun n => within (n + 1) := by
  rcases exists_least_or_none fun n => within (n + 1) with ⟨n, hn, hleast⟩ | hnone
  · have hafter : eventually (fun n => within (n + 1)) = within (n + 1) :=
      eventually_of_least hn hleast
    rw [hafter]
    refine eventually_of_least hn fun k hk => ?_
    cases k with
    | zero => exact hzero
    | succ k => exact hleast k (Nat.lt_of_succ_lt_succ hk)
  · rw [eventually_of_none hnone]
    refine eventually_of_none fun n => ?_
    cases n with
    | zero => exact hzero
    | succ n => exact hnone n

/-- What is made of an outcome is reached when the outcome is. -/
theorem eventually_map (f : α → β) (within : Nat → Option α) :
    eventually (fun n => (within n).map f) = (eventually within).map f := by
  rcases exists_least_or_none within with ⟨n, hn, hleast⟩ | hnone
  · rw [eventually_of_least hn hleast]
    refine eventually_of_least (by rwa [Option.isSome_map]) fun k hk => ?_
    rw [hleast k hk, Option.map_none]
  · rw [eventually_of_none hnone, Option.map_none]
    refine eventually_of_none fun n => ?_
    rw [hnone n, Option.map_none]

end

/-! ### The member read last -/

/-- The name and the position of the member that was read last, if there is one. -/
abbrev LastRead := Option (String × Nat)

/-- The position of the member that is read next. -/
def LastRead.next : LastRead → Nat
  | none => 0
  | some (_, index) => index + 1

theorem LastRead.next_none : LastRead.next none = 0 := rfl

theorem LastRead.next_some (name : String) (index : Nat) :
    LastRead.next (some (name, index)) = index + 1 := rfl

namespace Registry

variable (r : Registry U)

/-! ### Reading -/

/-- Opens wrappers as long as the type of the value is one, in at most so many steps. An empty
wrapper ends the look-up. -/
def openWithin (missing : Failure) : Nat → Dyn U → Option (Except Failure (Dyn U))
  | 0, _ => none
  | n + 1, d =>
    match (r.info d.ty).wrapper? with
    | none => some (.ok d)
    | some w =>
      match w.unwrap d with
      | none => some (.error missing)
      | some inner => openWithin missing n inner

/-- Opens wrappers as long as the type of the value is one. -/
noncomputable def openWhileWrapped (missing : Failure) (d : Dyn U) :
    Option (Except Failure (Dyn U)) :=
  eventually fun n => r.openWithin missing n d

/-- One wrapper is opened, and then those inside it. -/
theorem openWhileWrapped_eq (missing : Failure) (d : Dyn U) :
    r.openWhileWrapped missing d =
      match (r.info d.ty).wrapper? with
      | none => some (.ok d)
      | some w =>
        match w.unwrap d with
        | none => some (.error missing)
        | some inner => r.openWhileWrapped missing inner := by
  rw [openWhileWrapped, eventually_succ rfl]
  simp only [openWithin]
  cases (r.info d.ty).wrapper? with
  | none => exact eventually_some _
  | some w =>
      simp only
      cases w.unwrap d with
      | none => exact eventually_some _
      | some inner => rfl

/-- The value in which the next name is looked up. Wrappers at the root are not opened. -/
noncomputable def enter : LastRead → Dyn U → Option (Except Failure (Dyn U))
  | none, d => some (.ok d)
  | some (name, index), d => r.openWhileWrapped (.missingIntermediate name index) d

/-- **Looks up** names one after the other, from a value on. -/
noncomputable def lookUp (last : LastRead) (d : Dyn U) :
    List String → Option (Except LookUpError (Dyn U))
  | [] => some (.ok d)
  | name :: more =>
    match r.enter last d with
    | none => none
    | some (.error f) => some (.error (.failure f))
    | some (.ok owner) =>
      match (r.info owner.ty).member? name with
      | .error e => some (.error (.invalid e))
      | .ok m =>
        match m.handles.read owner with
        | none => some (.error (.failure (.foreignOwner m.name)))
        | some v => lookUp (some (m.name, last.next)) v more

/-! ### Writing -/

/-- Opens wrappers for a mutable borrow, as long as the type of the value is one, in at most so many
steps. -/
def openMutWithin (missing : Failure) :
    Nat → (d : Dyn U) → Option (Except (Failure × U.Val d.ty) (Slot U (U.Val d.ty)))
  | 0, _ => none
  | n + 1, d =>
    match (r.info d.ty).wrapper? with
    | none => some (.ok (Slot.whole d))
    | some w =>
      match w.unwrapMut d with
      | none => some (.error (missing, d.val))
      | some inner => (openMutWithin missing n inner.dyn).map (Slot.within inner.fill)

/-- Opens wrappers for a mutable borrow, as long as the type of the value is one. -/
noncomputable def openMutWhileWrapped (missing : Failure) (d : Dyn U) :
    Option (Except (Failure × U.Val d.ty) (Slot U (U.Val d.ty))) :=
  eventually fun n => r.openMutWithin missing n d

/-- One wrapper is opened for a mutable borrow, and then those inside it. -/
theorem openMutWhileWrapped_eq (missing : Failure) (d : Dyn U) :
    r.openMutWhileWrapped missing d =
      match (r.info d.ty).wrapper? with
      | none => some (.ok (Slot.whole d))
      | some w =>
        match w.unwrapMut d with
        | none => some (.error (missing, d.val))
        | some inner =>
          (r.openMutWhileWrapped missing inner.dyn).map (Slot.within inner.fill) := by
  rw [openMutWhileWrapped, eventually_succ rfl]
  simp only [openMutWithin]
  cases (r.info d.ty).wrapper? with
  | none => exact eventually_some _
  | some w =>
      simp only
      cases w.unwrapMut d with
      | none => exact eventually_some _
      | some inner => exact eventually_map _ _

/-- The value in which the next name is looked up, as a slot. -/
noncomputable def enterMut : LastRead → (d : Dyn U) →
    Option (Except (Failure × U.Val d.ty) (Slot U (U.Val d.ty)))
  | none, d => some (.ok (Slot.whole d))
  | some (name, index), d => r.openMutWhileWrapped (.missingIntermediate name index) d

/-- **Borrows the owner** of the member that comes after the given names. -/
noncomputable def borrowOwner (last : LastRead) (d : Dyn U) :
    List String → Option (Except (LookUpError × U.Val d.ty) (Slot U (U.Val d.ty)))
  | [] =>
    match r.enterMut last d with
    | none => none
    | some (.error (f, after)) => some (.error (.failure f, after))
    | some (.ok owner) => some (.ok owner)
  | name :: more =>
    match r.enterMut last d with
    | none => none
    | some (.error (f, after)) => some (.error (.failure f, after))
    | some (.ok owner) =>
      match (r.info owner.ty).member? name with
      | .error e => some (.error (.invalid e, owner.restore))
      | .ok m =>
        match m.handles.readMut owner.dyn with
        | none => some (.error (.failure (.foreignOwner m.name), owner.restore))
        | some part =>
          (borrowOwner (some (m.name, last.next)) part.dyn more).map
            (Slot.within (owner.fill ∘ part.fill))

/-- **Assigns** the member under the names `front` and `name`, in the value `d`. -/
noncomputable def write (d : Dyn U) (front : List String) (name : String) (v : Dyn U) :
    Option (Except LookUpError Unit × U.Val d.ty) :=
  match r.borrowOwner none d front with
  | none => none
  | some (.error (e, after)) => some (.error e, after)
  | some (.ok owner) =>
    match (r.info owner.ty).member? name with
    | .error e => some (.error (.invalid e), owner.restore)
    | .ok m =>
      match m.handles.assign owner.dyn ⟨v.ty, some v.val⟩ with
      | none => some (.error (.failure (.foreignOwner m.name)), owner.restore)
      | some after => some (.ok (), owner.fill after)

/-- **Roots with the same components,** after the member behind the names `front` was written: they
are equal, or the owner of that member is filled with two values whose members all read the
same. -/
inductive SameComponents (d : Dyn U) (front : List String) : U.Val d.ty → U.Val d.ty → Prop
  | refl (x : U.Val d.ty) : SameComponents d front x x
  | owner {s : Slot U (U.Val d.ty)} (hs : r.borrowOwner none d front = some (.ok s))
      {x y : U.Val s.ty} (h : r.SameMembers s.ty x y) :
      SameComponents d front (s.fill x) (s.fill y)

end Registry

end MemberAccess
