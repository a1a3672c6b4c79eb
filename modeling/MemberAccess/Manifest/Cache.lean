import MemberAccess.Manifest.Basic

/-!
# A cache of manifests

Manifests are kept by the path of their file, each with the modification time that was observed
before it was read. A kept manifest is used as long as the file still shows that time.

## Main definitions

* `CachedManifest`: a manifest with an observed modification time.
* `ManifestCache`: manifests by path.
* `ManifestCache.sharedBy`: the use of the manifest at a path, kept or read.
* `ManifestCache.shared`: the same for a file that stays as it is.
* `ManifestCache.cratePaths`: the paths of packages.
-/

namespace MemberAccess

/-- **A manifest with the modification time** that was observed before it was read. -/
structure CachedManifest where
  modified : Nat
  manifest : Manifest
deriving DecidableEq

/-- **Manifests by path.** -/
structure ManifestCache where
  entries : List (String × CachedManifest)
deriving DecidableEq

namespace ManifestCache

/-- The cache that keeps nothing. -/
def empty : ManifestCache := ⟨[]⟩

/-- What is kept for a path. -/
def get? (c : ManifestCache) (path : String) : Option CachedManifest :=
  c.entries.lookup path

/-- Keeps a manifest for a path, in place of the one it had. -/
def insert (c : ManifestCache) (path : String) (m : CachedManifest) : ManifestCache :=
  ⟨(path, m) :: c.entries.filter (·.1 ≠ path)⟩

/-- The manifest kept for a path, if it was kept under the modification time `observed`. -/
def fresh? (c : ManifestCache) (path : String) (observed : Nat) : Option Manifest :=
  match c.get? path with
  | some kept => if kept.modified = observed then some kept.manifest else none
  | none => none

/-- **Uses the manifest at a path.** The modification time of the file is looked at by `stat`. The
file is only read, by `read`, if no manifest is kept under that time. What was read is kept, with
the time observed before, once it has been used without failure. -/
def sharedBy {m : Type → Type} [Monad m] {ε α : Type} (c : ManifestCache) (path : String)
    (stat : m Nat) (read : m Manifest) (use : Manifest → Except ε α) :
    m (Except ε α × ManifestCache) := do
  let observed ← stat
  match c.fresh? path observed with
  | some kept => pure (use kept, c)
  | none => do
    let found ← read
    match use found with
    | .error e => pure (.error e, c)
    | .ok a => pure (.ok a, c.insert path ⟨observed, found⟩)

/-- Uses the manifest at a path whose file shows the modification time `observed` and holds
`read`. -/
def shared {ε α : Type} (c : ManifestCache) (path : String) (observed : Nat) (read : Manifest)
    (use : Manifest → Except ε α) : Except ε α × ManifestCache :=
  Id.run (c.sharedBy path (pure observed) (pure read) use)

/-- **The paths of packages,** one after the other, by the manifest at a path. -/
def cratePaths (c : ManifestCache) (path : String) (observed : Nat) (read : Manifest) :
    List String → List (Except InvalidCratePath CratePath)
  | [] => []
  | name :: more =>
    let used := c.shared path observed read (·.cratePath name)
    used.1 :: cratePaths used.2 path observed read more

end ManifestCache

end MemberAccess
