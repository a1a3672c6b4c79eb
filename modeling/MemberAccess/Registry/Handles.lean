import MemberAccess.Registry.Universe

/-!
# Handles of members

A member is read, borrowed mutably and assigned through functions on its owner. In a list of
members of many types the handles are erased: they take an owner of any type, and do nothing
unless it is of the type that they were made for.

## Main definitions

* `Handles`: the handles of a member of known types. Only reading is always possible.
* `ErasedHandles`: handles with their types, and their use on owners of any type.
* `ErasedHandles.typed?`: the handles, if they have given types.
-/

namespace MemberAccess

variable {U : Universe}

/-- **The handles of a member** of type `V` in owners of type `O`. The mutable borrow gives the
component and the owner that results when it is replaced. -/
structure Handles (U : Universe) (O V : U.Ty) where
  get : U.Val O → U.Val V
  getMut : Option (U.Val O → U.Val V × (U.Val V → U.Val O))
  set : Option (U.Val O → U.Val V → U.Val O)

/-- **Handles with their types.** -/
structure ErasedHandles (U : Universe) where
  owner : U.Ty
  value : U.Ty
  handles : Handles U owner value

/-- A value that is offered to a setter, of a type known only at run time. It may be missing. -/
structure Offer (U : Universe) where
  ty : U.Ty
  value : Option (U.Val ty)

/-- The value offered, if it is of the type `t` and not missing. -/
def Offer.as? (o : Offer U) (t : U.Ty) : Option (U.Val t) :=
  o.value.bind fun v => Dyn.as? ⟨o.ty, v⟩ t

namespace ErasedHandles

/-- Whether the member can be borrowed mutably. -/
def hasGetMut (h : ErasedHandles U) : Bool := h.handles.getMut.isSome

/-- Whether the member has a setter. -/
def hasSet (h : ErasedHandles U) : Bool := h.handles.set.isSome

/-- **Reads** the member of an owner of the right type. -/
def read (h : ErasedHandles U) (d : Dyn U) : Option (Dyn U) :=
  (d.as? h.owner).map fun o => ⟨h.value, h.handles.get o⟩

/-- An owner of the right type is read by the getter. -/
@[simp] theorem read_self (h : ErasedHandles U) (o : U.Val h.owner) :
    h.read ⟨h.owner, o⟩ = some ⟨h.value, h.handles.get o⟩ := by
  rw [read, Dyn.as?_self, Option.map_some]

/-- **Borrows** the member of an owner of the right type, if it can be borrowed mutably. -/
def readMut (h : ErasedHandles U) (d : Dyn U) : Option (Slot U (U.Val d.ty)) :=
  match h.handles.getMut with
  | none => none
  | some borrow =>
    if e : d.ty = h.owner then
      let part := borrow (cast (congrArg U.Val e) d.val)
      some ⟨h.value, part.1, fun v => cast (congrArg U.Val e.symm) (part.2 v)⟩
    else none

/-- An owner of the right type is borrowed by the mutable borrow. -/
theorem readMut_self {h : ErasedHandles U} {borrow : U.Val h.owner → _}
    (hb : h.handles.getMut = some borrow) (o : U.Val h.owner) :
    h.readMut ⟨h.owner, o⟩ = some ⟨h.value, (borrow o).1, (borrow o).2⟩ := by
  rw [readMut, hb]
  exact dif_pos rfl

/-- **Assigns** an offered value to the member of an owner of the right type, if there is a setter.
An offer that is not assigned is left as it was. -/
def assign (h : ErasedHandles U) (d : Dyn U) (offer : Offer U) : Option (U.Val d.ty) :=
  match h.handles.set with
  | none => none
  | some set =>
    if e : d.ty = h.owner then
      (offer.as? h.value).map fun v =>
        cast (congrArg U.Val e.symm) (set (cast (congrArg U.Val e) d.val) v)
    else none

/-- A value of the right type is assigned by the setter. -/
theorem assign_self {h : ErasedHandles U} {set : U.Val h.owner → _}
    (hs : h.handles.set = some set) (o : U.Val h.owner) (v : U.Val h.value) :
    h.assign ⟨h.owner, o⟩ ⟨h.value, some v⟩ = some (set o v) := by
  have hoffer : Offer.as? ⟨h.value, some v⟩ h.value = some v := Dyn.as?_self _ _
  rw [assign, hs]
  simp only [dif_pos, hoffer, Option.map_some, cast_eq]

/-- The handles, if they are for members of type `V` in owners of type `O`. -/
def typed? (h : ErasedHandles U) (O V : U.Ty) : Option (Handles U O V) :=
  if e : h.owner = O ∧ h.value = V then some (e.1 ▸ e.2 ▸ h.handles) else none

@[simp] theorem typed?_self (O V : U.Ty) (h : Handles U O V) :
    typed? ⟨O, V, h⟩ O V = some h := by
  simp [typed?]

/-- Handles that have given types are the erased ones. -/
theorem eq_of_typed? {h : ErasedHandles U} {O V : U.Ty} {k : Handles U O V}
    (ht : h.typed? O V = some k) : h = ⟨O, V, k⟩ := by
  obtain ⟨owner, value, handles⟩ := h
  rw [typed?] at ht
  by_cases e : owner = O ∧ value = V
  · obtain ⟨rfl, rfl⟩ := e
    rw [dif_pos ⟨rfl, rfl⟩] at ht
    exact congrArg (ErasedHandles.mk owner value) (Option.some.inj ht)
  · rw [dif_neg e] at ht
    cases ht

/-- Handles of known types read as their getter. -/
theorem read_of_typed? {h : ErasedHandles U} {O V : U.Ty} {k : Handles U O V}
    (ht : h.typed? O V = some k) (o : U.Val O) : h.read ⟨O, o⟩ = some ⟨V, k.get o⟩ := by
  obtain rfl := eq_of_typed? ht
  exact read_self ⟨O, V, k⟩ o

/-- Handles of known types assign as their setter. -/
theorem assign_of_typed? {h : ErasedHandles U} {O V : U.Ty} {k : Handles U O V}
    (ht : h.typed? O V = some k) {set : U.Val O → U.Val V → U.Val O} (hs : k.set = some set)
    (o : U.Val O) (v : U.Val V) : h.assign ⟨O, o⟩ ⟨V, some v⟩ = some (set o v) := by
  obtain rfl := eq_of_typed? ht
  exact assign_self (h := ⟨O, V, k⟩) hs o v

end ErasedHandles

end MemberAccess
