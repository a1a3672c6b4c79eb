import MemberAccess.Path.Resolve

/-!
# Chains of reads

A chain reads the members of a path one after the other, and opens the wrappers between them. It
can read the value at its end, or borrow it mutably. An empty wrapper ends the walk.

Handles and wrappers check the types of what they are given. That the checks never fail on a chain
whose types fit is a theorem about chains and not built into them, so the failures stand beside the
one that really occurs.

## Main definitions

* `Failure`: how a walk fails.
* `Step`, `Chain`: the members to read, with their positions and the wrappers to open.
* `Chain.read`: the value at the end of a chain.
* `Chain.readMut`: the value at the end of a chain as a slot of the root, or the failure with the
  root afterwards.
-/

namespace MemberAccess

variable {U : Universe}

/-- **How a walk fails.** Only a missing value depends on the root. A foreign owner or value means
that a handle was given a value of a type that it was not made for. -/
inductive Failure where
  | missingIntermediate (member : String) (index : Nat)
  | foreignOwner (member : String)
  | foreignValue (type : String)
deriving DecidableEq

/-- The message of a failure. -/
def Failure.message : Failure → String
  | missingIntermediate member index =>
    "member `" ++ member ++ "` (position " ++ Literal.renderInt index ++
      " in the path) holds no value"
  | foreignOwner member =>
    "internal error: entered unreachable code: member `" ++ member ++
      "` received a value of another type"
  | foreignValue type =>
    "internal error: entered unreachable code: path value is not a `" ++ type ++ "`"

/-! ### Opening wrappers -/

namespace Wrapper

/-- Opens wrappers, outermost first. Nothing results if one is empty. -/
def openAll : List (Wrapper U) → Dyn U → Option (Dyn U)
  | [], d => some d
  | w :: ws, d => (w.unwrap d).bind (openAll ws)

/-- Opens wrappers for a mutable borrow. If one is empty, the value is given back. -/
def openAllMut : List (Wrapper U) → (d : Dyn U) → Except (U.Val d.ty) (Slot U (U.Val d.ty))
  | [], d => .ok (Slot.whole d)
  | w :: ws, d =>
    match w.unwrapMut d with
    | none => .error d.val
    | some inner =>
      match openAllMut ws inner.dyn with
      | .error content => .error (inner.fill content)
      | .ok part => .ok (part.map inner.fill)

end Wrapper

/-! ### Chains -/

/-- **A step of a chain:** a member at a position of the path, and the wrappers to open after it. -/
structure Step (U : Universe) where
  member : Member U
  index : Nat
  unwraps : List (Wrapper U)

namespace Step

/-- The failure of a step whose value is missing. -/
def missing (s : Step U) : Failure :=
  .missingIntermediate s.member.name s.index

/-- The links of a step: its member, then the wrappers by the names of what is in them. -/
def links (name : U.Ty → String) (s : Step U) : List Link :=
  .member s.member.kind s.member.name s.member.valueName ::
    s.unwraps.map fun w => .unwrap (name w.target)

end Step

/-- **A chain of reads,** from the root on. -/
structure Chain (U : Universe) where
  steps : List (Step U)

namespace Chain

/-- The chain that reads the members `ds`, which begin at the root. -/
def ofDescriptors (ds : List (Descriptor U)) : Chain U :=
  ⟨ds.mapIdx fun index d => ⟨d.member, index, d.unwraps⟩⟩

/-- Reads through the steps. -/
def readSteps : List (Step U) → Dyn U → Except Failure (Dyn U)
  | [], d => .ok d
  | s :: more, d =>
    match s.member.handles.read d with
    | none => .error (.foreignOwner s.member.name)
    | some v =>
      match Wrapper.openAll s.unwraps v with
      | none => .error s.missing
      | some inner => readSteps more inner

/-- Borrows through the steps. A failure comes with the value as the walk has left it. -/
def readMutSteps : List (Step U) → (d : Dyn U) →
    Except (Failure × U.Val d.ty) (Slot U (U.Val d.ty))
  | [], d => .ok (Slot.whole d)
  | s :: more, d =>
    match s.member.handles.readMut d with
    | none => .error (.foreignOwner s.member.name, d.val)
    | some part =>
      match Wrapper.openAllMut s.unwraps part.dyn with
      | .error content => .error (s.missing, part.fill content)
      | .ok inner =>
        match readMutSteps more inner.dyn with
        | .error (failure, content) => .error (failure, part.fill (inner.fill content))
        | .ok slot => .ok (slot.map (part.fill ∘ inner.fill))

/-- **Reads** the value at the end of the chain. -/
def read (c : Chain U) (root : Dyn U) : Except Failure (Dyn U) :=
  readSteps c.steps root

/-- **Borrows** the value at the end of the chain. -/
def readMut (c : Chain U) (root : Dyn U) :
    Except (Failure × U.Val root.ty) (Slot U (U.Val root.ty)) :=
  readMutSteps c.steps root

/-- The links of a chain. -/
def links (name : U.Ty → String) (c : Chain U) : List Link :=
  c.steps.flatMap (Step.links name)

end Chain

end MemberAccess
