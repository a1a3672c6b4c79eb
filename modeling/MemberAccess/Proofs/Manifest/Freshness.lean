import MemberAccess.Manifest.Machine

/-!
# The cache of manifests is never stale

The modification time of a file is looked at before the file is read, and both are kept together. A
rewrite may land in between, so that what is kept need not belong to the time that it is kept with:
it may be newer. It is never older, and this is what the cache rests on. As no time comes up twice
for one file, a file that still shows the time kept has not been rewritten since that time was
looked at, and what was read after is what it holds.

## Main definitions

* `Disk.Since`: a manifest that a file held when it showed a modification time, or later.
* `Machine.Current`: the invariant of the cache.
* `Machine.Misses`: the cache does not keep a manifest under the time that its file shows.

## Main results

* `Machine.call_of_fresh`, `Machine.call_of_miss`: what a call does.
* `Machine.Reachable.current`: the invariant holds on every machine that can be reached.
* `Machine.Reachable.call_never_stale`: a call uses the present content of its file, reads it only
  if it has to, and has nothing to do with what is kept for other paths.
-/

namespace MemberAccess

/-! ### Keeping manifests -/

namespace ManifestCache

variable {c : ManifestCache} {path other : String} {m : CachedManifest}

/-- What is kept for a path is what was inserted for it last. -/
theorem get?_insert_self : (c.insert path m).get? path = some m := by
  rw [get?, insert, List.lookup_cons_self]

/-- Dropping the entries of one path keeps those of the others. -/
theorem lookup_filter_of_ne (entries : List (String × CachedManifest)) (h : other ≠ path) :
    (entries.filter (·.1 ≠ path)).lookup other = entries.lookup other := by
  induction entries with
  | nil => rfl
  | cons entry entries ih =>
      obtain ⟨key, kept⟩ := entry
      by_cases hkey : key = path
      · have hother : (other == key) = false := beq_false_of_ne fun he => h (he.trans hkey)
        rw [List.filter_cons_of_neg (by simp [hkey]), List.lookup_cons, hother, ih]
      · rw [List.filter_cons_of_pos (by simp [hkey]), List.lookup_cons, List.lookup_cons, ih]

/-- What is kept for other paths stays. -/
theorem get?_insert_of_ne (h : other ≠ path) : (c.insert path m).get? other = c.get? other := by
  have hother : (other == path) = false := beq_false_of_ne h
  rw [get?, insert, List.lookup_cons, hother, get?]
  exact lookup_filter_of_ne c.entries h

/-- A manifest that is used from the cache was kept under the time observed. -/
theorem fresh?_eq_some_iff {observed : Nat} {manifest : Manifest} :
    c.fresh? path observed = some manifest ↔ c.get? path = some ⟨observed, manifest⟩ := by
  rw [fresh?]
  cases hkept : c.get? path with
  | none => simp only [reduceCtorEq]
  | some kept =>
      obtain ⟨modified, manifest'⟩ := kept
      by_cases hmodified : modified = observed
      · simp only [hmodified, if_true, Option.some.injEq, CachedManifest.mk.injEq, true_and]
      · simp only [hmodified, if_false, Option.some.injEq, CachedManifest.mk.injEq, false_and,
          reduceCtorEq]

/-- What is kept after a manifest was read and used with an outcome. -/
def afterUse {ε α : Type} (c : ManifestCache) (path : String) (m : CachedManifest) :
    Except ε α → ManifestCache
  | .error _ => c
  | .ok _ => c.insert path m

/-- The use of one manifest leaves what is kept of others. -/
theorem get?_afterUse_of_ne {ε α : Type} {outcome : Except ε α} (h : other ≠ path) :
    (c.afterUse path m outcome).get? other = c.get? other := by
  cases outcome with
  | error e => rfl
  | ok a => exact get?_insert_of_ne h

/-- What is kept after a use is what was read, or was kept before. -/
theorem get?_afterUse {ε α : Type} {outcome : Except ε α} {kept : CachedManifest}
    (h : (c.afterUse path m outcome).get? other = some kept) :
    (other = path ∧ kept = m) ∨ c.get? other = some kept := by
  by_cases hother : other = path
  · subst hother
    cases outcome with
    | error e => exact .inr h
    | ok a => exact .inl ⟨rfl, (Option.some.inj (get?_insert_self.symm.trans h)).symm⟩
  · exact .inr ((get?_afterUse_of_ne hother).symm.trans h)

/-- What is kept for a path after a use only depends on what was kept for it. -/
theorem get?_afterUse_congr {ε α : Type} {outcome : Except ε α} {c' : ManifestCache}
    (h : c'.get? path = c.get? path) :
    (c'.afterUse path m outcome).get? path = (c.afterUse path m outcome).get? path := by
  cases outcome with
  | error e => exact h
  | ok a => exact get?_insert_self.trans get?_insert_self.symm

end ManifestCache

/-! ### Versions -/

namespace Disk

variable {d : Disk} {path : String}

/-- A rewrite puts its version in front of those that the file has had. -/
theorem versions_rewrite_self (d : Disk) (w : Rewrite) :
    (d.rewrite w).versions w.path = w.version :: d.versions w.path := by
  simp only [versions, rewrite, if_true]

/-- A rewrite of one file leaves the versions of others. -/
theorem versions_rewrite_of_ne {w : Rewrite} (h : path ≠ w.path) :
    (d.rewrite w).versions path = d.versions path := by
  simp only [versions, rewrite, h, if_false]

/-- Rewrites put versions in front of those that a file has had. -/
theorem exists_versions_rewriteAll (d : Disk) (ws : List Rewrite) (path : String) :
    ∃ later, (d.rewriteAll ws).versions path = later ++ d.versions path := by
  induction ws generalizing d with
  | nil => exact ⟨[], rfl⟩
  | cons w ws ih =>
      obtain ⟨later, hlater⟩ := ih (d.rewrite w)
      by_cases hpath : path = w.path
      · subst hpath
        refine ⟨later ++ [w.version], hlater.trans ?_⟩
        rw [versions_rewrite_self, List.append_assoc, List.singleton_append]
      · exact ⟨later, hlater.trans (congrArg (later ++ ·) (versions_rewrite_of_ne hpath))⟩

/-- Rewrites of other files leave a file as it is. -/
theorem current_rewriteAll_of_ne {ws : List Rewrite} (h : ∀ w ∈ ws, w.path ≠ path) :
    (d.rewriteAll ws).current path = d.current path := by
  induction ws generalizing d with
  | nil => rfl
  | cons w ws ih =>
      obtain ⟨hw, hws⟩ := List.forall_mem_cons.1 h
      exact (ih hws).trans (if_neg hw.symm)

/-- Rewrites read nothing. -/
theorem reads_rewriteAll (d : Disk) (ws : List Rewrite) : (d.rewriteAll ws).reads = d.reads := by
  induction ws generalizing d with
  | nil => rfl
  | cons w ws ih => exact ih (d.rewrite w)

/-- No file has had two versions of one modification time. -/
def TimesDiffer (d : Disk) : Prop :=
  ∀ path, ((d.versions path).map Version.modified).Nodup

/-- A rewrite at a time of its own keeps the times of versions apart. -/
theorem TimesDiffer.rewrite (h : d.TimesDiffer) {w : Rewrite} (hw : d.Fresh w) :
    (d.rewrite w).TimesDiffer := by
  intro path
  by_cases hpath : path = w.path
  · subst hpath
    rw [versions_rewrite_self, List.map_cons, List.nodup_cons]
    refine ⟨fun hmem => ?_, h w.path⟩
    obtain ⟨v, hv, htime⟩ := List.mem_map.1 hmem
    exact hw v hv htime
  · rw [versions_rewrite_of_ne hpath]
    exact h path

/-- So do rewrites one after another. -/
theorem TimesDiffer.rewriteAll (h : d.TimesDiffer) {ws : List Rewrite} (hws : d.FreshAll ws) :
    (d.rewriteAll ws).TimesDiffer := by
  induction ws generalizing d with
  | nil => exact h
  | cons w ws ih => exact ih (h.rewrite hws.1) hws.2

/-! ### What a file has held since a time -/

/-- **A manifest that a file has held since** it showed a modification time: the version of that
time holds it, or a later one. -/
def Since (d : Disk) (path : String) (modified : Nat) (manifest : Manifest) : Prop :=
  ∃ later v before, d.versions path = later ++ v :: before ∧ v.modified = modified ∧
    ∃ w ∈ later ++ [v], w.content = manifest

/-- What a file has held since a time stays so when versions are put in front. -/
theorem Since.mono {d' : Disk} {modified : Nat} {manifest : Manifest}
    (h : d.Since path modified manifest) {newer : List Version}
    (hversions : d'.versions path = newer ++ d.versions path) :
    d'.Since path modified manifest := by
  obtain ⟨later, v, before, hsplit, hmodified, w, hw, hcontent⟩ := h
  refine ⟨newer ++ later, v, before, ?_, hmodified, w, ?_, hcontent⟩
  · rw [hversions, hsplit, List.append_assoc]
  · rw [List.append_assoc]
    exact List.mem_append_right newer hw

/-- What a file holds after rewrites, it has held since the time that it showed before them. -/
theorem since_rewriteAll (d : Disk) (ws : List Rewrite) (path : String) :
    (d.rewriteAll ws).Since path (d.current path).modified
      ((d.rewriteAll ws).current path).content := by
  obtain ⟨later, hlater⟩ := d.exists_versions_rewriteAll ws path
  refine ⟨later, d.current path, d.earlier path, hlater, rfl, (d.rewriteAll ws).current path, ?_,
    rfl⟩
  cases later with
  | nil => exact List.mem_singleton.2 (List.cons.inj hlater).1
  | cons v later =>
      rw [(List.cons.inj hlater).1]
      exact List.mem_cons_self

/-- **What a file has held since the time that it shows now** is what it holds now. -/
theorem Since.eq_current (hd : d.TimesDiffer) {manifest : Manifest}
    (h : d.Since path (d.current path).modified manifest) :
    manifest = (d.current path).content := by
  obtain ⟨later, v, before, hsplit, hmodified, w, hw, rfl⟩ := h
  cases later with
  | nil =>
      obtain rfl := List.mem_singleton.1 hw
      rw [(List.cons.inj hsplit).1]
  | cons u later =>
      -- The present version would be an earlier one as well.
      have hnodup := hd path
      rw [hsplit, List.cons_append, List.map_cons, List.nodup_cons, ← (List.cons.inj hsplit).1]
        at hnodup
      exact absurd (List.mem_map.2 ⟨v, List.mem_append_right later List.mem_cons_self, hmodified⟩)
        hnodup.1

end Disk

/-! ### Calls -/

namespace Machine

variable {ε α : Type} {s : Machine} {path : String} {between : List Rewrite}
  {use : Manifest → Except ε α}

/-- A manifest that is kept under the time that its file shows is used as it is. -/
theorem call_of_fresh {kept : Manifest}
    (h : s.cache.fresh? path (s.disk.current path).modified = some kept) :
    s.call path between use = (use kept, ⟨s.cache, s.disk.rewriteAll between⟩) := by
  simp only [call, ManifestCache.sharedBy, Disk.stat, bind, StateT.bind, StateT.run, h]
  rfl

/-- Any other manifest is read, used, and kept under the time observed before. -/
theorem call_of_miss (h : s.cache.fresh? path (s.disk.current path).modified = none) :
    s.call path between use =
      (use ((s.disk.rewriteAll between).current path).content,
        ⟨s.cache.afterUse path
            ⟨(s.disk.current path).modified, ((s.disk.rewriteAll between).current path).content⟩
            (use ((s.disk.rewriteAll between).current path).content),
          { s.disk.rewriteAll between with reads := path :: s.disk.reads }⟩) := by
  simp only [call, ManifestCache.sharedBy, Disk.stat, Disk.read, bind, StateT.bind, StateT.run, h,
    Disk.reads_rewriteAll]
  cases use ((s.disk.rewriteAll between).current path).content with
  | error e => rfl
  | ok a => rfl

/-- **What a call does.** It uses what is kept, or what the file holds after the rewrites in its
middle. -/
theorem call_cases (s : Machine) (path : String) (between : List Rewrite)
    (use : Manifest → Except ε α) :
    (∃ kept, s.cache.get? path = some ⟨(s.disk.current path).modified, kept⟩ ∧
        s.call path between use = (use kept, ⟨s.cache, s.disk.rewriteAll between⟩)) ∨
      s.cache.fresh? path (s.disk.current path).modified = none := by
  cases hfresh : s.cache.fresh? path (s.disk.current path).modified with
  | none => exact .inr rfl
  | some kept => exact .inl ⟨kept, ManifestCache.fresh?_eq_some_iff.1 hfresh, call_of_fresh hfresh⟩

/-! ### The invariant -/

/-- **The invariant of the cache:** what it keeps, a file has held since it showed the time that it
is kept with. No time has come up twice for one file. -/
structure Current (s : Machine) : Prop where
  times : s.disk.TimesDiffer
  since {path : String} {kept : CachedManifest} (h : s.cache.get? path = some kept) :
    s.disk.Since path kept.modified kept.manifest

/-- Rewrites keep the invariant. -/
theorem Current.rewriteAll (h : s.Current) (hbetween : s.disk.FreshAll between) :
    Current ⟨s.cache, s.disk.rewriteAll between⟩ := by
  refine ⟨h.times.rewriteAll hbetween, fun {path kept} hkept => ?_⟩
  obtain ⟨later, hlater⟩ := s.disk.exists_versions_rewriteAll between path
  exact (h.since hkept).mono hlater

/-- **A call keeps the invariant:** what it reads, the file has held since the call looked at its
modification time. -/
theorem Current.call (h : s.Current) (hbetween : s.disk.FreshAll between) (path : String)
    (use : Manifest → Except ε α) : (s.call path between use).2.Current := by
  have hafter := h.rewriteAll hbetween
  rcases call_cases s path between use with ⟨kept, -, hcall⟩ | hmiss
  · rw [hcall]
    exact hafter
  · rw [call_of_miss hmiss]
    refine ⟨hafter.times, fun {other kept} hkept => ?_⟩
    rcases ManifestCache.get?_afterUse hkept with ⟨rfl, rfl⟩ | hkept
    · exact s.disk.since_rewriteAll between other
    · exact hafter.since hkept

/-- **The invariant holds** on every machine that can be reached. -/
theorem Reachable.current (h : s.Reachable) : s.Current := by
  induction h with
  | start current =>
      refine ⟨fun path => ?_, fun {path kept} hkept => ?_⟩
      · exact List.pairwise_singleton _ _
      · cases hkept
  | @rewrite s _ w hw ih =>
      have hall : s.disk.FreshAll [w] := ⟨hw, trivial⟩
      exact ih.rewriteAll hall
  | call _ hbetween use ih => exact ih.call hbetween _ use

/-! ### Never stale -/

/-- Nothing is kept for a path, or it is kept under another time than its file shows. -/
def Misses (s : Machine) (path : String) : Prop :=
  s.cache.get? path = none ∨
    ∃ kept, s.cache.get? path = some kept ∧ kept.modified ≠ (s.disk.current path).modified

/-- Nothing fresh is kept exactly if the cache misses. -/
theorem fresh?_eq_none_iff :
    s.cache.fresh? path (s.disk.current path).modified = none ↔ s.Misses path := by
  rw [ManifestCache.fresh?, Misses]
  cases hkept : s.cache.get? path with
  | none => simp only [true_or]
  | some kept =>
      by_cases hmodified : kept.modified = (s.disk.current path).modified
      · simp [hmodified]
      · simp [hmodified]

/-- **A call is never stale.** If its file is not rewritten in the middle of it, it uses what the
file holds. It reads the file exactly if nothing is kept for it under the time that it shows. What
is kept for other paths stays, and nothing that a call does depends on it. -/
theorem Reachable.call_never_stale (h : s.Reachable) (path : String) (between : List Rewrite)
    (use : Manifest → Except ε α) :
    ((∀ w ∈ between, w.path ≠ path) →
        (s.call path between use).1 = use (s.disk.current path).content) ∧
      (s.Misses path → (s.call path between use).2.disk.reads = path :: s.disk.reads) ∧
      (¬s.Misses path → (s.call path between use).2.disk.reads = s.disk.reads) ∧
      (∀ other, other ≠ path →
        (s.call path between use).2.cache.get? other = s.cache.get? other) ∧
      ∀ c : ManifestCache, c.get? path = s.cache.get? path →
        (Machine.call ⟨c, s.disk⟩ path between use).1 = (s.call path between use).1 ∧
        (Machine.call ⟨c, s.disk⟩ path between use).2.disk = (s.call path between use).2.disk ∧
        (Machine.call ⟨c, s.disk⟩ path between use).2.cache.get? path =
          (s.call path between use).2.cache.get? path := by
  rcases call_cases s path between use with ⟨kept, hkept, hcall⟩ | hmiss
  · have hfresh : ¬s.Misses path := by
      rw [← fresh?_eq_none_iff, ManifestCache.fresh?_eq_some_iff.2 hkept]
      simp only [reduceCtorEq, not_false_eq_true]
    rw [hcall]
    refine ⟨fun _ => ?_, fun hmisses => absurd hmisses hfresh,
      fun _ => s.disk.reads_rewriteAll between, fun _ _ => rfl, fun c hc => ?_⟩
    · exact congrArg use ((h.current.since hkept).eq_current h.current.times)
    · have hcfresh : c.fresh? path (s.disk.current path).modified = some kept :=
        ManifestCache.fresh?_eq_some_iff.2 (hc.trans hkept)
      have hccall : Machine.call ⟨c, s.disk⟩ path between use = _ := call_of_fresh hcfresh
      rw [hccall]
      exact ⟨rfl, rfl, hc⟩
  · have hmisses := fresh?_eq_none_iff.1 hmiss
    rw [call_of_miss hmiss]
    refine ⟨fun hother => ?_, fun _ => rfl, fun hnot => absurd hmisses hnot,
      fun other hother => ManifestCache.get?_afterUse_of_ne hother, fun c hc => ?_⟩
    · rw [Disk.current_rewriteAll_of_ne hother]
    · have hcmiss : c.fresh? path (s.disk.current path).modified = none := by
        rw [← hmiss, ManifestCache.fresh?, ManifestCache.fresh?, hc]
      have hccall : Machine.call ⟨c, s.disk⟩ path between use = _ := call_of_miss hcmiss
      rw [hccall]
      exact ⟨rfl, rfl, ManifestCache.get?_afterUse_congr hc⟩

/-- A machine on which a rewrite has landed in the middle of the first call: the manifest is kept
under the time before. -/
def raced : Machine :=
  (Machine.call ⟨.empty, fun _ => ⟨0, ⟨[]⟩⟩, fun _ => [], []⟩ "Cargo.toml"
    [⟨"Cargo.toml", 1, ⟨[("dependencies", .table [])]⟩⟩]
    fun m => (.ok m : Except Unit Manifest)).2

/-- After a rewrite in the middle of a call, the next call reads the file again and uses what it
holds. -/
theorem raced_call_never_stale :
    raced.Reachable ∧
      raced.cache.get? "Cargo.toml" = some ⟨0, ⟨[("dependencies", .table [])]⟩⟩ ∧
      raced.disk.current "Cargo.toml" = ⟨1, ⟨[("dependencies", .table [])]⟩⟩ ∧
      (raced.call "Cargo.toml" [] fun m => (.ok m : Except Unit Manifest)).1 =
        .ok ⟨[("dependencies", .table [])]⟩ ∧
      (raced.call "Cargo.toml" [] fun m => (.ok m : Except Unit Manifest)).2.disk.reads =
        ["Cargo.toml", "Cargo.toml"] := by
  have hfresh : Disk.FreshAll ⟨fun _ => ⟨0, ⟨[]⟩⟩, fun _ => [], []⟩
      [⟨"Cargo.toml", 1, ⟨[("dependencies", .table [])]⟩⟩] := by
    refine ⟨fun v hv => ?_, trivial⟩
    obtain rfl := List.mem_singleton.1 hv
    exact Nat.zero_ne_one
  have hreachable : raced.Reachable := .call (.start fun _ => ⟨0, ⟨[]⟩⟩) hfresh _
  have hkept : raced.cache.get? "Cargo.toml" = some ⟨0, ⟨[("dependencies", .table [])]⟩⟩ := by
    decide +kernel
  have hcurrent : raced.disk.current "Cargo.toml" = ⟨1, ⟨[("dependencies", .table [])]⟩⟩ := by
    decide +kernel
  have hreads : raced.disk.reads = ["Cargo.toml"] := by decide +kernel
  have hmisses : raced.Misses "Cargo.toml" :=
    .inr ⟨_, hkept, by rw [hcurrent]; exact Nat.zero_ne_one⟩
  obtain ⟨houtcome, hread, -⟩ := Reachable.call_never_stale hreachable "Cargo.toml" []
    fun m => (.ok m : Except Unit Manifest)
  refine ⟨hreachable, hkept, hcurrent, ?_, ?_⟩
  · rw [houtcome fun _ hw => absurd hw List.not_mem_nil, hcurrent]
  · rw [hread hmisses, hreads]

end Machine

end MemberAccess
