import MemberAccess.Accessor.Compile

/-!
# Workspaces

A workspace keeps objects and accessors by name. Accessors are shared: a copy under another name
uses the same compiled functions, while a second compilation makes new ones. The functions of a
compilation are told apart by its number.

## Main definitions

* `SharedAccessor`: an accessor with its types and the number of its compilation.
* `Workspace`: a registry with named objects and accessors.
* `Workspace.keep`: what becomes of a name when something is compiled for it.
* `Workspace.get`, `Workspace.set`: the use of a named accessor on a named object.
-/

namespace MemberAccess

variable {U : Universe}

/-- **A shared accessor.** -/
structure SharedAccessor (U : Universe) where
  root : U.Ty
  value : U.Ty
  compilation : Nat
  accessor : Accessor U root value

/-- Whether two accessors share their compiled functions. -/
def SharedAccessor.same (a b : SharedAccessor U) : Bool :=
  a.compilation = b.compilation

/-- **A workspace.** -/
structure Workspace (U : Universe) where
  registry : Registry U
  objects : List (String × Dyn U)
  accessors : List (String × SharedAccessor U)
  compilations : Nat

namespace Workspace

/-- The workspace that keeps nothing. -/
def empty (r : Registry U) : Workspace U := ⟨r, [], [], 0⟩

/-! ### Names -/

/-- The object of a name. -/
def object? (ws : Workspace U) (name : String) : Option (Dyn U) :=
  ws.objects.lookup name

/-- The accessor of a name. -/
def accessor? (ws : Workspace U) (name : String) : Option (SharedAccessor U) :=
  ws.accessors.lookup name

/-- Keeps an object under a name, in place of the one it had. -/
def putObject (ws : Workspace U) (name : String) (d : Dyn U) : Workspace U :=
  { ws with objects := (name, d) :: ws.objects.filter (·.1 ≠ name) }

/-- Forgets the accessor of a name. -/
def dropAccessor (ws : Workspace U) (name : String) : Workspace U :=
  { ws with accessors := ws.accessors.filter (·.1 ≠ name) }

/-- Keeps an accessor under a name, in place of the one it had. -/
def putAccessor (ws : Workspace U) (name : String) (a : SharedAccessor U) : Workspace U :=
  { ws with accessors := (name, a) :: ws.accessors.filter (·.1 ≠ name) }

/-- **Keeps the outcome of a compilation under a name.** The accessor that the name had is
forgotten, also if the compilation failed. -/
def keep {T V : U.Ty} (ws : Workspace U) (name : String)
    (outcome : Except AccessorError (Accessor U T V)) : Workspace U :=
  match outcome with
  | .error _ => ws.dropAccessor name
  | .ok a =>
    { ws.putAccessor name ⟨T, V, ws.compilations, a⟩ with compilations := ws.compilations + 1 }

/-! ### Use -/

/-- Reads an object through an accessor. There is no answer if the object is not of the root type
of the accessor. -/
def get (a : SharedAccessor U) (d : Dyn U) : Option (Except Failure (Dyn U)) :=
  (d.as? a.root).map fun root => (a.accessor.get root).map fun v => ⟨a.value, v⟩

/-- Writes an object through an accessor, and keeps it under the name `name`. There is no answer if
the object or the value is not of the type of the accessor. -/
def set (ws : Workspace U) (a : SharedAccessor U) (name : String) (d v : Dyn U) :
    Option (Except Failure Unit × Workspace U) :=
  match d.as? a.root, v.as? a.value with
  | some root, some value =>
    let done := a.accessor.set root value
    some (done.1, ws.putObject name ⟨a.root, done.2⟩)
  | _, _ => none

end Workspace

end MemberAccess
