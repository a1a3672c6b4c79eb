import MemberAccess.Manifest.CratePath

/-!
# Manifests

The manifest of a crate lists its dependencies. Generated code that names a package has to use the
name under which the crate depends on it: the package itself, a dependency that is renamed, or an
umbrella crate that carries the package as a module.

## Main definitions

* `Dependency`, `Manifest`: the entries of a manifest.
* `Manifest.cratePath`: the path under which a crate reaches a package.
-/

namespace MemberAccess

/-- **A dependency:** its key, and the package that it names if the key is another name for it. -/
structure Dependency where
  key : String
  package : Option String
deriving DecidableEq

/-- An entry at the top of a manifest: a table of dependencies in their order, or a plain value. -/
inductive ManifestEntry where
  | scalar
  | table (deps : List Dependency)
deriving DecidableEq

/-- **A manifest:** its entries by name. -/
structure Manifest where
  entries : List (String × ManifestEntry)
deriving DecidableEq

/-- A text that was to be a path to a crate and is none. -/
structure InvalidCratePath where
  text : String
deriving DecidableEq

/-- The message of an invalid path. -/
def InvalidCratePath.message (e : InvalidCratePath) : String :=
  "`" ++ e.text ++ "` is not a valid path"

/-- The absolute path through the segments `words`. -/
def absolutePath (words : List String) : Except InvalidCratePath CratePath :=
  let text := "::".intercalate words
  match CratePath.ofText? text with
  | some p => .ok p
  | none => .error ⟨text⟩

/-! ### Looking for a package -/

/-- The crates that carry other packages as modules, the preferred one first. -/
def umbrellas : List String := ["vc_compiled", "vc"]

/-- The front of the names of the packages that umbrellas carry. -/
def packagePrefix : String := "vc_"

/-- The tables that are searched, in order. -/
def dependencyTables : List String := ["dependencies", "dev-dependencies"]

/-- The name of a package inside an umbrella. -/
def shortName? (name : String) : Option String :=
  if packagePrefix.toList.isPrefixOf name.toList then
    some (String.ofList (name.toList.drop packagePrefix.toList.length))
  else none

/-- Whether a table has a dependency of a key. -/
def hasKey (deps : List Dependency) (key : String) : Bool :=
  deps.any (·.key = key)

/-- **The segments under which a table provides a package.** Its own key comes first, then the
first dependency that is renamed from it, then an umbrella. -/
def findPackage? (deps : List Dependency) (name : String) : Option (List String) :=
  if hasKey deps name then some [name]
  else
    match deps.find? (·.package = some name) with
    | some d => some [d.key]
    | none =>
      match shortName? name with
      | none => none
      | some short => (umbrellas.find? (hasKey deps)).map fun umbrella => [umbrella, short]

namespace Manifest

/-- The dependencies of a table, if the manifest has it and it is a table. -/
def table? (m : Manifest) (name : String) : Option (List Dependency) :=
  match m.entries.lookup name with
  | some (.table deps) => some deps
  | _ => none

/-- The segments under which a crate reaches a package. A package that no table provides is reached
by its own name. -/
def segments (m : Manifest) (name : String) : List String :=
  ((dependencyTables.filterMap m.table?).findSome? (findPackage? · name)).getD [name]

/-- **The path under which a crate reaches a package.** -/
def cratePath (m : Manifest) (name : String) : Except InvalidCratePath CratePath :=
  absolutePath (m.segments name)

end Manifest

end MemberAccess
