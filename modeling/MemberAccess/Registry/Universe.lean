/-!
# Universes of types

Types are known by their identity at run time, and each has its own values. A value whose type is
known only at run time travels together with it, and gives its value back to whoever names the
right type.

A mutable borrow of a component is a `Slot`: the component, and a function that rebuilds the whole
from a new one.

## Main definitions

* `Universe`: types, their values and their names.
* `Dyn`: a value with its type.
* `Dyn.as?`: the value, if it has a given type.
* `Slot`: a component of a whole, of a type known only at run time.
-/

namespace MemberAccess

/-- **A universe of types.** Each type has values and a name, and types can be told apart. -/
structure Universe where
  Ty : Type
  Val : Ty → Type
  name : Ty → String
  decEq : DecidableEq Ty

instance Universe.decidableEqTy (U : Universe) : DecidableEq U.Ty := U.decEq

variable {U : Universe}

/-- **A value of a type known only at run time.** -/
structure Dyn (U : Universe) where
  ty : U.Ty
  val : U.Val ty

/-- The value, if it has the type `t`. -/
def Dyn.as? (d : Dyn U) (t : U.Ty) : Option (U.Val t) :=
  if h : d.ty = t then some (cast (congrArg U.Val h) d.val) else none

@[simp] theorem Dyn.as?_self (t : U.Ty) (v : U.Val t) : Dyn.as? ⟨t, v⟩ t = some v := by
  simp [Dyn.as?]

/-- **A mutable borrow of a component:** its present content, and the whole that results when it is
replaced. -/
structure Slot (U : Universe) (Whole : Type) where
  ty : U.Ty
  content : U.Val ty
  fill : U.Val ty → Whole

namespace Slot

variable {A B : Type}

/-- The content with its type. -/
def dyn (s : Slot U A) : Dyn U :=
  ⟨s.ty, s.content⟩

@[simp] theorem dyn_mk (t : U.Ty) (x : U.Val t) (fill : U.Val t → A) :
    (Slot.mk t x fill).dyn = ⟨t, x⟩ := rfl

/-- The slot that is all of a value. -/
def whole (d : Dyn U) : Slot U (U.Val d.ty) :=
  ⟨d.ty, d.val, id⟩

/-- A slot inside a part is a slot of the whole. -/
def map (f : A → B) (s : Slot U A) : Slot U B :=
  ⟨s.ty, s.content, f ∘ s.fill⟩

/-- The whole with its content as it is. -/
def restore (s : Slot U A) : A :=
  s.fill s.content

/-- Stores `v`, if it is of the type of the content. -/
def store? (s : Slot U A) (v : Dyn U) : Option A :=
  (v.as? s.ty).map s.fill

end Slot

end MemberAccess
