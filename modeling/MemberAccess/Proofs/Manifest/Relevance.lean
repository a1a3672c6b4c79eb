import Mathlib.Data.List.Find
import Mathlib.Logic.Relation
import MemberAccess.Proofs.Manifest.Resolution

/-!
# What matters in a manifest

The path to a package depends on few dependencies of a manifest: those whose key is the name of the
package or of an umbrella, and those that are renamed from the package. Their order does not matter
as long as no two are renamed from it, and neither does anything else in the tables. Which of them
decides is a matter of rank, within a table and between the two tables.

## Main definitions

* `Dependency.Irrelevant`: the dependencies that do not matter for a package.
* `RenamedOnce`: at most one dependency of a table is renamed from a package.
* `TableEdit`, `Manifest.Edit`: changes of order, and of dependencies that do not matter.
* `Decides`, `Ranks`: when a table decides on a package, and which dependency in it does.

## Main results

* `findPackage?_congr`: a table is searched for what matters in it.
* `Manifest.Edit.sameRelevant`, `Manifest.sameRelevant_of_edits`: edits keep what matters.
* `Manifest.cratePath_of_relevant`: the path depends on what matters only, by its rank.
-/

namespace MemberAccess

variable {deps deps' : List Dependency} {name : String}

/-! ### Dependencies that matter -/

/-- **A dependency that does not matter for a package:** its key is neither the name of the package
nor that of an umbrella, and it is not renamed from the package. -/
def Dependency.Irrelevant (d : Dependency) (name : String) : Prop :=
  d.key ≠ name ∧ d.key ∉ umbrellas ∧ d.package ≠ some name

instance (d : Dependency) (name : String) : Decidable (d.Irrelevant name) :=
  inferInstanceAs (Decidable (_ ∧ _ ∧ _))

/-- At most one dependency of a table is renamed from a package. -/
def RenamedOnce (name : String) (deps : List Dependency) : Prop :=
  ∀ d ∈ deps, ∀ e ∈ deps, d.package = some name → e.package = some name → d = e

instance (name : String) (deps : List Dependency) : Decidable (RenamedOnce name deps) :=
  inferInstanceAs (Decidable (∀ d ∈ deps, ∀ e ∈ deps, d.package = some name →
    e.package = some name → d = e))

/-- The same dependencies of two tables matter. -/
def SameRelevant (name : String) (deps deps' : List Dependency) : Prop :=
  ∀ d : Dependency, ¬d.Irrelevant name → (d ∈ deps ↔ d ∈ deps')

namespace SameRelevant

/-- What only dependencies that matter can be is in both tables or in none. -/
theorem exists_iff (h : SameRelevant name deps deps') {P : Dependency → Prop}
    (hP : ∀ d, P d → ¬d.Irrelevant name) : (∃ d ∈ deps, P d) ↔ ∃ d ∈ deps', P d :=
  exists_congr fun d => and_congr_left fun hd => h d (hP d hd)

/-- Keys that are looked up are in both tables or in none. -/
theorem hasKey_eq (h : SameRelevant name deps deps') {key : String}
    (hkey : key = name ∨ key ∈ umbrellas) : hasKey deps key = hasKey deps' key := by
  rw [Bool.eq_iff_iff, hasKey_eq_true_iff, hasKey_eq_true_iff]
  refine h.exists_iff ?_
  rintro d rfl ⟨hname, humbrella, -⟩
  exact hkey.elim hname humbrella

end SameRelevant

/-- The only dependency that is renamed from a package is the one found. -/
theorem RenamedOnce.find?_eq_some_iff (h : RenamedOnce name deps) {d : Dependency} :
    deps.find? (·.package = some name) = some d ↔ d ∈ deps ∧ d.package = some name := by
  have hpackage : ∀ {e}, deps.find? (·.package = some name) = some e → e.package = some name :=
    fun hfound => by simpa using List.find?_some hfound
  constructor
  · exact fun hfound => ⟨List.mem_of_find?_eq_some hfound, hpackage hfound⟩
  · rintro ⟨hd, hrenamed⟩
    cases hfound : deps.find? (·.package = some name) with
    | none => exact absurd (decide_eq_true hrenamed) (List.find?_eq_none.1 hfound d hd)
    | some e => rw [h e (List.mem_of_find?_eq_some hfound) d hd (hpackage hfound) hrenamed]

/-- Whether a package is renamed more than once depends on what matters only. -/
theorem RenamedOnce.of_sameRelevant (h : RenamedOnce name deps)
    (hsame : SameRelevant name deps deps') : RenamedOnce name deps' := by
  intro d hd e he hdname hename
  exact h d ((hsame d fun hirrelevant => hirrelevant.2.2 hdname).2 hd) e
    ((hsame e fun hirrelevant => hirrelevant.2.2 hename).2 he) hdname hename

/-- **A table is searched for what matters in it.** -/
theorem findPackage?_congr (h : SameRelevant name deps deps') (honce : RenamedOnce name deps) :
    findPackage? deps name = findPackage? deps' name := by
  have hfind : deps.find? (·.package = some name) = deps'.find? (·.package = some name) := by
    refine Option.ext fun d => ?_
    rw [honce.find?_eq_some_iff, (honce.of_sameRelevant h).find?_eq_some_iff]
    exact and_congr_left fun hpackage => h d fun hirrelevant => hirrelevant.2.2 hpackage
  have humbrella : umbrellas.find? (hasKey deps) = umbrellas.find? (hasKey deps') :=
    List.find?_congr fun u hu => h.hasKey_eq (.inr hu)
  rw [findPackage?, findPackage?, h.hasKey_eq (.inl rfl), hfind, humbrella]

/-! ### Edits -/

/-- **An edit of a table** that changes the order of its dependencies, or adds or removes one that
does not matter for a package. -/
inductive TableEdit (name : String) : List Dependency → List Dependency → Prop
  | permute {deps deps' : List Dependency} (h : deps.Perm deps') : TableEdit name deps deps'
  | add {before after : List Dependency} {d : Dependency} (h : d.Irrelevant name) :
      TableEdit name (before ++ after) (before ++ d :: after)
  | remove {before after : List Dependency} {d : Dependency} (h : d.Irrelevant name) :
      TableEdit name (before ++ d :: after) (before ++ after)

/-- An edit of a table leaves what matters in it. -/
theorem TableEdit.sameRelevant (h : TableEdit name deps deps') : SameRelevant name deps deps' := by
  cases h with
  | permute h => exact fun d _ => h.mem_iff
  | add h =>
      intro d hd
      have hne : d ≠ _ := fun heq => hd (heq ▸ h)
      simp [hne]
  | remove h =>
      intro d hd
      have hne : d ≠ _ := fun heq => hd (heq ▸ h)
      simp [hne]

namespace Manifest

variable {m m' : Manifest}

/-- The dependencies of a table, which has none if the manifest does not have it. -/
def dependencies (m : Manifest) (table : String) : List Dependency :=
  (m.table? table).getD []

/-- **An edit of a manifest** is one of one of its tables. -/
def Edit (name : String) (m m' : Manifest) : Prop :=
  ∃ table, TableEdit name (m.dependencies table) (m'.dependencies table) ∧
    ∀ other, other ≠ table → m'.dependencies other = m.dependencies other

/-- **An edit keeps what matters** in every table. -/
theorem Edit.sameRelevant (h : Edit name m m') (table : String) :
    SameRelevant name (m.dependencies table) (m'.dependencies table) := by
  obtain ⟨edited, hedit, hothers⟩ := h
  by_cases htable : table = edited
  · exact htable ▸ hedit.sameRelevant
  · rw [hothers table htable]
    exact fun _ _ => Iff.rfl

/-- **Edits keep what matters,** however many they are. -/
theorem sameRelevant_of_edits (h : Relation.ReflTransGen (Edit name) m m') (table : String) :
    SameRelevant name (m.dependencies table) (m'.dependencies table) := by
  induction h with
  | refl => exact fun _ _ => Iff.rfl
  | tail _ hedit ih => exact fun d hd => (ih d hd).trans (hedit.sameRelevant table d hd)

/-- A table that a manifest does not have is one without dependencies. -/
theorem segments_eq : m.segments name =
    (dependencyTables.findSome? fun table => findPackage? (m.dependencies table) name).getD
      [name] := by
  have hempty : findPackage? [] name = none := by
    rw [findPackage?_eq_none_iff]
    rintro words (⟨d, hd, -⟩ | ⟨-, hdeps, -, -⟩ | ⟨-, -, -, -, -, d, hd, -⟩)
    · cases hd
    · simp at hdeps
    · cases hd
  have htable : ∀ table, (m.table? table).bind (findPackage? · name) =
      findPackage? (m.dependencies table) name := by
    intro table
    rw [dependencies]
    cases m.table? table with
    | none => exact hempty.symm
    | some deps => rfl
  rw [segments, findSome?_filterMap, funext htable]

/-- What the tables reach one after the other is what the crate reaches. -/
theorem segments_congr
    (h : ∀ table ∈ dependencyTables,
      findPackage? (m'.dependencies table) name = findPackage? (m.dependencies table) name) :
    m'.segments name = m.segments name := by
  have hfound : dependencyTables.findSome? (id ∘ fun t => findPackage? (m'.dependencies t) name) =
      dependencyTables.findSome? (id ∘ fun t => findPackage? (m.dependencies t) name) := by
    rw [← List.findSome?_map, List.map_congr_left h, List.findSome?_map]
  rw [segments_eq, segments_eq]
  exact congrArg (Option.getD · [name]) hfound

end Manifest

/-! ### Ranks -/

/-- **A table decides on a package** if it has its name as a key, a dependency that is renamed from
it or, for a name with the prefix, an umbrella. -/
def Decides (name : String) (deps : List Dependency) : Prop :=
  ∃ d ∈ deps, d.key = name ∨ d.package = some name ∨
    d.key ∈ umbrellas ∧ ∃ short, name = packagePrefix ++ short

/-- A table finds no package exactly if it does not decide. -/
theorem findPackage?_eq_none_iff_not_decides :
    findPackage? deps name = none ↔ ¬Decides name deps := by
  rw [findPackage?_eq_none_iff]
  constructor
  · rintro h ⟨d, hd, hdecides⟩
    -- If a rule before it does not apply, then the one for `d` does.
    by_cases hkey : ∃ e ∈ deps, e.key = name
    · exact h _ (.key hkey)
    · have hkeys : ∀ e ∈ deps, e.key ≠ name := fun e he heq => hkey ⟨e, he, heq⟩
      have hpackages : ∀ e ∈ deps, e.package ≠ some name := by
        intro e he hpackage
        obtain ⟨f, -, -, hreaches⟩ := TableReaches.exists_renamed
          ⟨e, he, Dependency.provides_of_package hpackage⟩ hkeys
        exact h _ hreaches
      rcases hdecides with hname | hpackage | ⟨humbrella, short, hshort⟩
      · exact hkeys d hd hname
      · exact hpackages d hd hpackage
      · have hfound : (umbrellas.find? (hasKey deps)).isSome = true :=
          List.find?_isSome.2 ⟨d.key, humbrella, hasKey_eq_true_iff.2 ⟨d, hd, rfl⟩⟩
        obtain ⟨u, hu⟩ := Option.isSome_iff_exists.1 hfound
        obtain ⟨hukey, before, after, humbrellas, hbefore⟩ := List.find?_eq_some_iff_append.1 hu
        refine h _ (.umbrella hkeys hpackages hshort humbrellas
          (fun v hv => hasKey_eq_false_iff.1 ?_) (hasKey_eq_true_iff.1 hukey))
        simpa using hbefore v hv
  · rintro h words hreaches
    refine h ?_
    cases hreaches with
    | key hkey =>
        obtain ⟨d, hd, hname⟩ := hkey
        exact ⟨d, hd, .inl hname⟩
    | @renamed before after d _ hdeps _ hpackage =>
        exact ⟨d, hdeps ▸ List.mem_append_right _ List.mem_cons_self, .inr (.inl hpackage)⟩
    | @umbrella before after u short _ _ hshort humbrellas _ hkey =>
        obtain ⟨d, hd, rfl⟩ := hkey
        exact ⟨d, hd, .inr (.inr ⟨humbrellas ▸ List.mem_append_right _ List.mem_cons_self,
          short, hshort⟩)⟩

/-- **The ranks within a table,** by the path that results: the name as a key comes before a
dependency that is renamed, that before an umbrella, and `vc_compiled` before `vc`. -/
structure Ranks (name : String) (deps : List Dependency)
    (path : Except InvalidCratePath CratePath) : Prop where
  key : (∃ d ∈ deps, d.key = name) → path = absolutePath [name]
  renamed : (∀ d ∈ deps, d.key ≠ name) → ∀ d ∈ deps, d.package = some name →
    path = absolutePath [d.key]
  compiled : (∀ d ∈ deps, d.key ≠ name ∧ d.package ≠ some name) →
    ∀ short, name = packagePrefix ++ short → (∃ d ∈ deps, d.key = "vc_compiled") →
      path = absolutePath ["vc_compiled", short]
  umbrella : (∀ d ∈ deps, d.key ≠ name ∧ d.package ≠ some name ∧ d.key ≠ "vc_compiled") →
    ∀ short, name = packagePrefix ++ short → (∃ d ∈ deps, d.key = "vc") →
      path = absolutePath ["vc", short]

/-- **The search of a table keeps the ranks.** -/
theorem RenamedOnce.ranks {path : Except InvalidCratePath CratePath} (honce : RenamedOnce name deps)
    (h : ∀ words, TableReaches deps name words → path = absolutePath words) :
    Ranks name deps path where
  key hkey := h _ (.key hkey)
  renamed hkeys d hd hpackage := by
    obtain ⟨e, he, hrenamed, hreaches⟩ := TableReaches.exists_renamed
      ⟨d, hd, Dependency.provides_of_package hpackage⟩ hkeys
    rw [honce d hd e he hpackage hrenamed]
    exact h _ hreaches
  compiled hother short hshort hkey := by
    have hnone : ∀ u ∈ ([] : List String), ∀ e ∈ deps, e.key ≠ u := by simp
    exact h _ (.umbrella (fun d hd => (hother d hd).1) (fun d hd => (hother d hd).2) hshort rfl
      hnone hkey)
  umbrella hother short hshort hkey := by
    have hcompiled : ∀ u ∈ ["vc_compiled"], ∀ e ∈ deps, e.key ≠ u := by
      simpa using fun d hd => (hother d hd).2.2
    exact h _ (.umbrella (fun d hd => (hother d hd).1) (fun d hd => (hother d hd).2.1) hshort rfl
      hcompiled hkey)

namespace Manifest

variable {m m' : Manifest}

/-- The first table that decides on a package gives its path. -/
theorem cratePath_of_tableReaches {before after : List String} {table : String}
    {words : List String} (htables : dependencyTables = before ++ table :: after)
    (hbefore : ∀ t ∈ before, ¬Decides name (m.dependencies t))
    (h : TableReaches (m.dependencies table) name words) :
    m.cratePath name = absolutePath words := by
  have hfound : (dependencyTables.findSome? fun t => findPackage? (m.dependencies t) name) =
      some words :=
    List.findSome?_eq_some_iff.2 ⟨before, table, after, htables, findPackage?_eq_some_iff.2 h,
      fun t ht => findPackage?_eq_none_iff_not_decides.2 (hbefore t ht)⟩
  rw [cratePath, segments_eq, hfound, Option.getD_some]

/-- **The path to a package depends only on what matters for it.** No edits change it. Nothing in
`dev-dependencies` does if `dependencies` decides. The first table that decides gives the path, by
the ranks of what it holds. -/
theorem cratePath_of_relevant
    (honce : ∀ table ∈ dependencyTables, RenamedOnce name (m.dependencies table)) :
    (∀ m', Relation.ReflTransGen (Edit name) m m' → m'.cratePath name = m.cratePath name) ∧
    (Decides name (m.dependencies "dependencies") →
      ∀ m' : Manifest, m'.dependencies "dependencies" = m.dependencies "dependencies" →
        m'.cratePath name = m.cratePath name) ∧
    ∀ before table after, dependencyTables = before ++ table :: after →
      (∀ t ∈ before, ¬Decides name (m.dependencies t)) →
        Ranks name (m.dependencies table) (m.cratePath name) := by
  refine ⟨fun m' hedits => ?_, fun hdecides m' hsame => ?_, ?_⟩
  · have hsegments : m'.segments name = m.segments name := segments_congr fun table htable =>
      (findPackage?_congr (sameRelevant_of_edits hedits table) (honce table htable)).symm
    rw [cratePath, cratePath, hsegments]
  · obtain ⟨words, hwords⟩ : ∃ words, findPackage? (m.dependencies "dependencies") name =
        some words :=
      Option.ne_none_iff_exists'.1 fun hnone =>
        findPackage?_eq_none_iff_not_decides.1 hnone hdecides
    have hreaches := findPackage?_eq_some_iff.1 hwords
    have hbefore : ∀ m : Manifest, ∀ t ∈ ([] : List String), ¬Decides name (m.dependencies t) := by
      simp
    rw [cratePath_of_tableReaches rfl (hbefore m) hreaches,
      cratePath_of_tableReaches rfl (hbefore m') (hsame ▸ hreaches)]
  · intro before table after htables hbefore
    exact (honce table (htables ▸ List.mem_append_right _ List.mem_cons_self)).ranks
      fun words => cratePath_of_tableReaches htables hbefore

/-- A manifest with a dependency that is renamed, an umbrella and one that does not matter. -/
def crowded : Manifest :=
  ⟨[("dependencies", .table [⟨"serde", none⟩, ⟨"acc", some "vc_access"⟩, ⟨"vc", none⟩])]⟩

/-- The same in another order and without what does not matter. -/
def tidied : Manifest :=
  ⟨[("dependencies", .table [⟨"vc", none⟩, ⟨"acc", some "vc_access"⟩])]⟩

/-- Two edits lead from one to the other. -/
theorem crowded_edits_tidied : Relation.ReflTransGen (Edit "vc_access") crowded tidied := by
  have hothers : ∀ {deps deps' : List Dependency} (other : String), other ≠ "dependencies" →
      dependencies ⟨[("dependencies", .table deps)]⟩ other =
        dependencies ⟨[("dependencies", .table deps')]⟩ other := by
    intro deps deps' other hother
    have hlookup : (other == "dependencies") = false := beq_eq_false_iff_ne.2 hother
    simp only [dependencies, table?, List.lookup_cons, hlookup, List.lookup_nil]
  have hremoved : Edit "vc_access" crowded
      ⟨[("dependencies", .table [⟨"acc", some "vc_access"⟩, ⟨"vc", none⟩])]⟩ :=
    ⟨"dependencies", @TableEdit.remove _ [] _ ⟨"serde", none⟩ (by decide), hothers⟩
  have hpermuted : Edit "vc_access"
      ⟨[("dependencies", .table [⟨"acc", some "vc_access"⟩, ⟨"vc", none⟩])]⟩ tidied :=
    ⟨"dependencies", .permute (.swap _ _ _), hothers⟩
  exact (Relation.ReflTransGen.single hremoved).tail hpermuted

/-- A renamed dependency keeps its rank when a manifest is tidied. -/
theorem tidied_cratePath :
    (∀ table ∈ dependencyTables, RenamedOnce "vc_access" (crowded.dependencies table)) ∧
      Relation.ReflTransGen (Edit "vc_access") crowded tidied ∧
      tidied.cratePath "vc_access" = .ok ⟨["acc"]⟩ := by
  have honce : ∀ table ∈ dependencyTables,
      RenamedOnce "vc_access" (crowded.dependencies table) := by decide
  have hacc : IsFieldName "acc" := .bare (by decide +kernel) (by decide)
  obtain ⟨hedits, -, hranks⟩ := cratePath_of_relevant honce
  have hpath := (hranks [] "dependencies" ["dev-dependencies"] rfl (by simp)).renamed (by decide)
    ⟨"acc", some "vc_access"⟩ (by decide) rfl
  refine ⟨honce, crowded_edits_tidied, ?_⟩
  rw [hedits tidied crowded_edits_tidied, hpath,
    absolutePath_of_identifiers (List.cons_ne_nil _ _) (List.forall_mem_singleton.2 hacc)]

end Manifest

end MemberAccess
