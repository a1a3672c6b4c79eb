import MemberAccess.Manifest.Cache

/-!
# Manifests on a machine

The files of manifests are rewritten while a crate is compiled, also in the middle of a use of the
cache. Each version of a file has a modification time, and a rewrite gives the file one that it
never had before.

## Main definitions

* `Disk`: the versions of the files, and the paths that were read.
* `Disk.stat`, `Disk.read`: what a use of the cache does with a file.
* `Machine`: the files with the cache.
* `Machine.call`: a use of the manifest at a path, with rewrites in the middle of it.
* `Machine.Reachable`: what comes of rewrites and calls, from an empty cache on.
-/

namespace MemberAccess

/-! ### Files -/

/-- **A version of a file:** its modification time and the manifest that it holds. -/
structure Version where
  modified : Nat
  content : Manifest
deriving DecidableEq

/-- **The files of manifests,** each with its present version and those before, the last first. The
paths that were read are noted, the last first. -/
structure Disk where
  current : String → Version
  earlier : String → List Version
  reads : List String

/-- A rewrite of a file. -/
structure Rewrite where
  path : String
  version : Version

namespace Disk

/-- All versions of a file, the present one first. -/
def versions (d : Disk) (path : String) : List Version :=
  d.current path :: d.earlier path

/-- The files after a rewrite. -/
def rewrite (d : Disk) (w : Rewrite) : Disk where
  current path := if path = w.path then w.version else d.current path
  earlier path := if path = w.path then d.versions path else d.earlier path
  reads := d.reads

/-- The files after rewrites, the first of which comes first. -/
def rewriteAll (d : Disk) (ws : List Rewrite) : Disk :=
  ws.foldl rewrite d

/-- A rewrite that gives its file a modification time that it never had before. -/
def Fresh (d : Disk) (w : Rewrite) : Prop :=
  ∀ v ∈ d.versions w.path, v.modified ≠ w.version.modified

/-- Rewrites each of which gives its file a modification time that it never had before. -/
def FreshAll : Disk → List Rewrite → Prop
  | _, [] => True
  | d, w :: ws => d.Fresh w ∧ FreshAll (d.rewrite w) ws

/-- **Looks at the modification time** of a file. The rewrites `between` land right after. -/
def stat (path : String) (between : List Rewrite) : StateM Disk Nat := fun d =>
  ((d.current path).modified, d.rewriteAll between)

/-- **Reads** a file. -/
def read (path : String) : StateM Disk Manifest := fun d =>
  ((d.current path).content, { d with reads := path :: d.reads })

end Disk

/-! ### Machines -/

/-- **The files with the cache of manifests.** -/
structure Machine where
  cache : ManifestCache
  disk : Disk

namespace Machine

/-- **Uses the manifest at a path.** The rewrites `between` land after the modification time has
been looked at, and before the file may be read. -/
def call {ε α : Type} (s : Machine) (path : String) (between : List Rewrite)
    (use : Manifest → Except ε α) : Except ε α × Machine :=
  let done := (s.cache.sharedBy path (Disk.stat path between) (Disk.read path) use).run s.disk
  (done.1.1, ⟨done.1.2, done.2⟩)

/-- The machine after a rewrite. -/
def rewrite (s : Machine) (w : Rewrite) : Machine :=
  ⟨s.cache, s.disk.rewrite w⟩

/-- **What rewrites and calls can make** of files that are there, from an empty cache on. -/
inductive Reachable : Machine → Prop
  | start (current : String → Version) : Reachable ⟨.empty, current, fun _ => [], []⟩
  | rewrite {s : Machine} (h : Reachable s) {w : Rewrite} (hw : s.disk.Fresh w) :
      Reachable (s.rewrite w)
  | call {ε α : Type} {s : Machine} (h : Reachable s) {path : String} {between : List Rewrite}
      (hbetween : s.disk.FreshAll between) (use : Manifest → Except ε α) :
      Reachable (s.call path between use).2

end Machine

end MemberAccess
