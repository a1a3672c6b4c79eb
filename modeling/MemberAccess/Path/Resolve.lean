import MemberAccess.Path.Log
import MemberAccess.Path.Spec
import MemberAccess.Registry.Crossing

/-!
# Resolving member paths

The names of a path are looked up one after the other, from the root on. Between two members the
wrappers around the value of the first are crossed, and remembered with it; the wrappers around the
value of the last member are not, and neither are those at the root.

## Main definitions

* `Descriptor`: a member of a path, the type that lists it and the wrappers crossed after it.
* `Path`: a resolved path, which is never empty.
* `Registry.resolve`: the path of a list of names.
* `Registry.parse`: the path of a specification.
-/

namespace MemberAccess

variable {U : Universe}

/-! ### Paths -/

/-- **A resolved member,** with the type that lists it and the wrappers between its value and the
owner of the next member, outermost first. -/
structure Descriptor (U : Universe) where
  member : Member U
  owner : TypeInfo U
  unwraps : List (Wrapper U)

/-- **A resolved path.** -/
structure Path (U : Universe) where
  root : TypeInfo U
  members : List (Descriptor U)
  nonempty : members ≠ []

namespace Path

/-- The last member. -/
def terminal (p : Path U) : Descriptor U := p.members.getLast p.nonempty

/-- The members before the last. -/
def parents (p : Path U) : List (Descriptor U) := p.members.dropLast

/-- The type of the value of the last member. -/
def value (p : Path U) : U.Ty := p.terminal.member.value

/-- Whether the path has one member. -/
def isSimple (p : Path U) : Bool := p.members.length = 1

/-- The names of the members, root first. -/
def names (p : Path U) : List String := p.members.map (·.member.name)

/-- The names of the members, joined by points. -/
def fullName (p : Path U) : String := joinNames p.names

/-- The text of a path: the first name, and each further one behind a point. -/
def text (p : Path U) : String :=
  match p.names with
  | [] => ""
  | name :: more => more.foldl (fun text next => text ++ ("." ++ next)) name

end Path

/-! ### Resolution -/

namespace Registry

/-- Resolves names in the type `owner`. Nothing results if there are wrappers without end on the
way. -/
def resolveFrom (r : Registry U) (owner : TypeInfo U) :
    List String → Option (Except InvalidPath (List (Descriptor U)))
  | [] => some (.ok [])
  | name :: more =>
    match owner.composite? with
    | none => some (.error (.noMembers owner.name name))
    | some table =>
      match table.find? name with
      | none => some (.error (.unknownMember owner.name name))
      | some m =>
        if m.owner ≠ owner.id then some (.error (.memberOwnerMismatch owner.name m.name))
        else if more = [] then some (.ok [⟨m, owner, []⟩])
        else
          match r.cross (r.info m.value) with
          | none => none
          | some (unwraps, next) =>
            (resolveFrom r next more).map fun later => later.map (⟨m, owner, unwraps⟩ :: ·)

/-- **Resolves names** in the type `root`. Without a name there is no path. -/
def resolve (r : Registry U) (root : TypeInfo U) (names : List String) :
    Option (Except InvalidPath (Path U)) :=
  (r.resolveFrom root names).map fun found => found.bind fun
    | [] => .error .empty
    | d :: ds => .ok ⟨root, d :: ds, List.cons_ne_nil d ds⟩

/-- **The path of a specification** in the type `root`. A path that is found is logged. -/
def parse (r : Registry U) (root : TypeInfo U) (spec : PathSpec) :
    Option (Logged (Except InvalidPath (Path U))) :=
  match spec.memberNames with
  | .error e => some (pure (.error e))
  | .ok names =>
    (r.resolve root names).map fun
      | .error e => pure (.error e)
      | .ok path => do
        Logged.emit (.parsed path.fullName root.name)
        pure (.ok path)

end Registry

end MemberAccess
