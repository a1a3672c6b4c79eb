import MemberAccess.Accessor.Basic

/-!
# Compiling accessors

A path is compiled for a root type and a value type. The types are compared first, that of the root
before that of the value. A caller's setter is then taken as it is; otherwise the last member must
have a setter, which must be public unless other setters are allowed, and the members before it
must all be borrowable.

## Main definitions

* `AccessorError`: why no accessor is made.
* `Compiler`: the policy on setters that are not public.
* `Compiler.compile`, `Compiler.compileWithSetter`: an accessor for a path.
* `Compiler.compileSpec`, `Compiler.compileSpecWithSetter`: the same for a specification.
* `Registry.simpleAssigner`: the typed setter of a public member of the root.
-/

namespace MemberAccess

variable {U : Universe}

/-! ### Errors -/

/-- Why a member can not be written. -/
inductive InaccessibleReason where
  | readOnly | nonPublic | notMutablyTraversable
deriving DecidableEq

/-- The words for a reason. -/
def InaccessibleReason.text : InaccessibleReason → String
  | readOnly => "it has no setter"
  | nonPublic => "its setter is not public"
  | notMutablyTraversable => "it can not be borrowed mutably"

/-- **Why no accessor is made.** -/
inductive AccessorError where
  | invalidPath (e : InvalidPath)
  | inaccessibleMember (member : String) (reason : InaccessibleReason)
deriving DecidableEq

/-- The message of an error. -/
def AccessorError.message : AccessorError → String
  | invalidPath e => e.message
  | inaccessibleMember member reason =>
    "member `" ++ member ++ "` is not accessible for writing: " ++ reason.text

/-! ### Checks -/

/-- Compares the types of a path with the root type and the value type asked for. -/
def Path.checkTypes (p : Path U) (T V : U.Ty) : Except InvalidPath Unit :=
  if p.root.id ≠ T then .error (.rootTypeMismatch (U.name T) p.root.name)
  else if p.value ≠ V then
    .error (.valueTypeMismatch p.terminal.member.name (U.name V) p.terminal.member.valueName)
  else .ok ()

/-- The error of a member that can not be written. -/
def Member.refuse (m : Member U) (reason : InaccessibleReason) : AccessorError :=
  .inaccessibleMember m.name reason

/-! ### The halves of an accessor -/

/-- The typed handles of the only member of a path, if they are for `T` and `V`. -/
def Path.typed? (p : Path U) (T V : U.Ty) : Option (Handles U T V) :=
  if p.isSimple then p.terminal.member.handles.typed? T V else none

/-- **The getter of a path:** the typed handle of a single member, and else the chain of all. -/
def Path.getter (p : Path U) (T V : U.Ty) : Getter U T V :=
  match p.typed? T V with
  | some h => .direct h.get
  | none => .chain (.ofDescriptors p.members)

/-- How the last member is assigned in its borrowed owner: through its own borrow if it is a field
that has one, and else by its setter. -/
def Path.assign (p : Path U) : Assign U :=
  let m := p.terminal.member
  if m.kind = .field ∧ m.isTraversable then .slot m else .setter m

/-- The setter that borrows the owner of the last member, if all members before it can be
borrowed. -/
def Path.compoundSetter (p : Path U) (T V : U.Ty) : Except AccessorError (Setter U T V) :=
  match p.parents.find? fun d => !d.member.isTraversable with
  | some d => .error (d.member.refuse .notMutablyTraversable)
  | none => .ok (.compound (.ofDescriptors p.parents) p.assign)

/-- **A compiler of accessors,** with its policy on setters that are not public. -/
structure Compiler where
  allowNonPublicWrite : Bool
deriving DecidableEq

/-- **The setter of a path.** That the last member has a setter is checked first, then that it may
be used, then that its owner can be borrowed. A public member of the root needs no borrow. -/
def Compiler.setter (c : Compiler) (p : Path U) (T V : U.Ty) :
    Except AccessorError (Setter U T V) :=
  let m := p.terminal.member
  if !m.isWritable then .error (m.refuse .readOnly)
  else
    match m.accessibility with
    | .nonPublic =>
      if c.allowNonPublicWrite then p.compoundSetter T V else .error (m.refuse .nonPublic)
    | .isPublic =>
      match (p.typed? T V).bind Handles.set with
      | some set => .ok (.direct set)
      | none => p.compoundSetter T V

/-! ### Compiling -/

/-- The records of a finished accessor: that a member of the root is written along the path
although it needs none, the strategy, the links of a chain and the layout of the setter. -/
def Path.records {T V : U.Ty} (p : Path U) (getter : Getter U T V) (setter : Setter U T V) :
    List LogRecord :=
  (if p.isSimple ∧ setter.strategy = .compound then
      [.nonPublicFallback p.terminal.member.name p.root.name] else []) ++
    [.compiled p.fullName p.root.name setter.strategy] ++
    (match getter with
      | .direct _ => []
      | .chain chain => [.getterLinks p.fullName (chain.links U.name)]) ++
    [.setter p.fullName (setter.layout U.name)]

/-- Makes the accessor of a path from a setter, and logs it. -/
def Path.finish {T V : U.Ty} (p : Path U) (setter : Setter U T V) : Logged (Accessor U T V) :=
  let getter := p.getter T V
  ⟨⟨getter, setter, p.names⟩, p.records getter setter⟩

namespace Compiler

/-- **Compiles a path** for the root type `T` and the value type `V`. -/
def compile (c : Compiler) (T V : U.Ty) (p : Path U) :
    Logged (Except AccessorError (Accessor U T V)) :=
  match p.checkTypes T V with
  | .error e => pure (.error (.invalidPath e))
  | .ok () =>
    match c.setter p T V with
    | .error e => pure (.error e)
    | .ok setter => .ok <$> p.finish setter

/-- **Compiles a path with a setter of the caller's.** The policy does not matter. -/
def compileWithSetter (T V : U.Ty) (set : U.Val T → U.Val V → U.Val T) (p : Path U) :
    Logged (Except AccessorError (Accessor U T V)) :=
  match p.checkTypes T V with
  | .error e => pure (.error (.invalidPath e))
  | .ok () => .ok <$> p.finish (.explicit set)

end Compiler

/-- Parses a specification in the type `root`, and goes on with its path. Nothing results if the
parsing does not end. -/
def Registry.withPath {α : Type} (r : Registry U) (root : TypeInfo U) (spec : PathSpec)
    (next : Path U → Logged (Except AccessorError α)) :
    Option (Logged (Except AccessorError α)) :=
  (r.parse root spec).map fun parsed => parsed >>= fun
    | .error e => pure (.error (.invalidPath e))
    | .ok p => next p

namespace Compiler

/-- **Compiles a specification** for the root type `T` and the value type `V`. -/
def compileSpec (c : Compiler) (r : Registry U) (T V : U.Ty) (spec : PathSpec) :
    Option (Logged (Except AccessorError (Accessor U T V))) :=
  r.withPath (r.info T) spec (c.compile T V)

/-- **Compiles a specification with a setter of the caller's.** -/
def compileSpecWithSetter (r : Registry U) (T V : U.Ty) (set : U.Val T → U.Val V → U.Val T)
    (spec : PathSpec) : Option (Logged (Except AccessorError (Accessor U T V))) :=
  r.withPath (r.info T) spec (compileWithSetter T V set)

end Compiler

/-! ### Simple assigners -/

/-- The name and the typed setter of the only member of a path, which must be public. -/
def Path.simpleAssigner (p : Path U) (T V : U.Ty) :
    Except AccessorError (String × (U.Val T → U.Val V → U.Val T)) :=
  let m := p.terminal.member
  if !p.isSimple then .error (.invalidPath (.notSimple p.fullName))
  else
    match p.checkTypes T V with
    | .error e => .error (.invalidPath e)
    | .ok () =>
      if !m.isWritable then .error (m.refuse .readOnly)
      else if m.accessibility ≠ .isPublic then .error (m.refuse .nonPublic)
      else
        match (p.typed? T V).bind Handles.set with
        | some set => .ok (m.name, set)
        | none => .error (m.refuse .readOnly)

/-- **The name and the setter of a public member of the root,** which `spec` must access alone. -/
def Registry.simpleAssigner (r : Registry U) (T V : U.Ty) (spec : PathSpec) :
    Option (Logged (Except AccessorError (String × (U.Val T → U.Val V → U.Val T)))) :=
  r.withPath (r.info T) spec fun p => pure (p.simpleAssigner T V)

end MemberAccess
