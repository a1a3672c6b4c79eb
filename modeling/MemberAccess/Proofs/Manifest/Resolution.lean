import MemberAccess.Manifest.Basic
import MemberAccess.Proofs.Manifest.CratePath

/-!
# Where a manifest finds a package

A package is looked for in the tables of dependencies, one after the other, and in each by its own
key first, then by the packages that the dependencies are renamed from, then in an umbrella. The
segments found are put together to a text, which is read as a path. They are identifiers, and come
back as they are, with one exception: the key of a renamed dependency may have a hyphen, and is
taken over as it is written.

## Main definitions

* `Dependency.Provides`: the package of a dependency.
* `TableReaches`, `Manifest.Reaches`: the rules by which a package is found.
* `Manifest.HasValidKeys`: the dependencies have names that a manifest may give them.

## Main results

* `Manifest.segments_eq_iff`: the segments are those of the rules.
* `Manifest.cratePath_of_provides`: a package that a dependency provides is named by that.
* `Manifest.cratePath_ok_or_hyphen`: a path results, unless a key with a hyphen is taken over.
-/

namespace MemberAccess

open Source Text

/-! ### Names of dependencies -/

/-- **A name of a dependency** is made of ASCII letters, digits, `-` and `_`, a letter first. -/
def IsDependencyName : List Char → Prop
  | [] => False
  | c :: more => c.isAlpha = true ∧ ∀ d ∈ more, d.isAlphanum = true ∨ d = '-' ∨ d = '_'

instance : DecidablePred IsDependencyName
  | [] => inferInstanceAs (Decidable False)
  | c :: more =>
    decidable_of_iff (c.isAlpha = true ∧ more.all (fun d => d.isAlphanum || d = '-' || d = '_'))
      (and_congr Iff.rfl (by simp [or_assoc]))

/-- Letters begin words, and digits continue them. -/
theorem word_of_isAlphanum {c : Char} (h : c.isAlphanum = true) :
    continuesWord c = true ∧ (c.isAlpha = true → startsWord c = true) := by
  have hascii : ∀ n < 128, (Char.ofNat n).isAlphanum = true → continuesWord (Char.ofNat n) = true ∧
      ((Char.ofNat n).isAlpha = true → startsWord (Char.ofNat n) = true) := by decide +kernel
  have hc : c.toNat < 128 := by
    have hranges : ((decide (c.val ≥ 65 ∧ c.val ≤ 90) ||
        decide (c.val ≥ 97) && decide (c.val ≤ 122)) ||
        decide (c.val ≥ 48) && decide (c.val ≤ 57)) = true := h
    simp only [Bool.or_eq_true, Bool.and_eq_true, decide_eq_true_eq,
      UInt32.le_iff_toNat_le] at hranges
    have hval : c.toNat = c.val.toNat := rfl
    have hlast : (90 : UInt32).toNat = 90 ∧ (122 : UInt32).toNat = 122 ∧
      (57 : UInt32).toNat = 57 := by decide
    omega
  have hpoint := hascii c.toNat hc
  rw [Char.ofNat_toNat] at hpoint
  exact hpoint h

/-- The part of a name of a dependency before a hyphen, or all of it, is a word. -/
theorem IsDependencyName.isWord {cs front back : List Char} (h : IsDependencyName cs)
    (hcs : cs = front ++ back) (hne : front ≠ []) (hfront : '-' ∉ front) : IsWord front := by
  cases front with
  | nil => exact absurd rfl hne
  | cons c front =>
      subst hcs
      obtain ⟨hc, hmore⟩ := h
      have halphanum : c.isAlphanum = true := by simp [Char.isAlphanum, hc]
      refine ⟨(word_of_isAlphanum halphanum).2 hc, fun d hd => ?_⟩
      rcases hmore d (List.mem_append_left _ hd) with hd' | rfl | rfl
      · exact (word_of_isAlphanum hd').1
      · exact absurd (List.mem_cons_of_mem _ hd) hfront
      · decide +kernel

/-- A name of a dependency without a hyphen is an identifier, if it is no keyword. -/
theorem IsDependencyName.isFieldName {key : String} (h : IsDependencyName key.toList)
    (hkeyword : key ∉ keywords) (hhyphen : '-' ∉ key.toList) : IsFieldName key := by
  have hne : key.toList ≠ [] := fun hnil => by
    rw [hnil] at h
    exact h
  exact .bare (h.isWord (List.append_nil _).symm hne hhyphen) hkeyword

/-- A name of a dependency with a hyphen is no path. -/
theorem IsDependencyName.ofText?_eq_none {key : String} (h : IsDependencyName key.toList)
    (hhyphen : '-' ∈ key.toList) : CratePath.ofText? key = none := by
  -- The text is cut at its first hyphen: before that is a word, behind it no quote.
  obtain ⟨front, back, hkey, hfront⟩ := List.eq_append_cons_of_mem hhyphen
  have hne : front ≠ [] := by
    rintro rfl
    rw [hkey] at h
    exact absurd h.1 (by decide)
  have hback : ∀ c ∈ back, c.isAlphanum = true ∨ c = '-' ∨ c = '_' := by
    cases front with
    | nil => exact absurd rfl hne
    | cons d front =>
        rw [hkey] at h
        exact fun c hc => h.2 c (List.mem_append_right _ (List.mem_cons_of_mem _ hc))
  have hquotes : ∀ {c : Char}, c.isAlphanum = false → c ≠ '-' → c ≠ '_' → c ∉ back := by
    intro c hc hdash hunderscore hmem
    rcases hback c hmem with hc' | hc' | hc'
    · exact absurd (hc'.symm.trans hc) (by decide)
    · exact hdash hc'
    · exact hunderscore hc'
  exact CratePath.ofText?_of_hyphen hkey (h.isWord hkey hne hfront)
    (hquotes (by decide) (by decide) (by decide)) (hquotes (by decide) (by decide) (by decide))

/-! ### The rules -/

/-- **The segments under which a table reaches a package:** its own name, if that is a key; the key
of the first dependency that is renamed from it; or the preferred umbrella and the rest of the name
behind the prefix. Each rule applies only if those before it do not. -/
inductive TableReaches (deps : List Dependency) (name : String) : List String → Prop
  | key (hkey : ∃ d ∈ deps, d.key = name) : TableReaches deps name [name]
  | renamed {before after : List Dependency} {d : Dependency} (hkeys : ∀ e ∈ deps, e.key ≠ name)
      (hdeps : deps = before ++ d :: after) (hbefore : ∀ e ∈ before, e.package ≠ some name)
      (hpackage : d.package = some name) : TableReaches deps name [d.key]
  | umbrella {before after : List String} {umbrella short : String}
      (hkeys : ∀ e ∈ deps, e.key ≠ name) (hpackages : ∀ e ∈ deps, e.package ≠ some name)
      (hname : name = packagePrefix ++ short) (humbrellas : umbrellas = before ++ umbrella :: after)
      (hbefore : ∀ u ∈ before, ∀ e ∈ deps, e.key ≠ u) (hkey : ∃ e ∈ deps, e.key = umbrella) :
      TableReaches deps name [umbrella, short]

variable {deps : List Dependency} {name : String} {words : List String}

/-- A table has a key if one of its dependencies has it. -/
theorem hasKey_eq_true_iff {key : String} : hasKey deps key = true ↔ ∃ d ∈ deps, d.key = key := by
  simp [hasKey]

/-- The short name of a package is its name behind the prefix. -/
theorem shortName?_eq_some_iff {short : String} :
    shortName? name = some short ↔ name = packagePrefix ++ short := by
  rw [shortName?]
  constructor
  · intro h
    split at h
    · rename_i hprefix
      obtain ⟨more, hmore⟩ := List.isPrefixOf_iff_prefix.1 hprefix
      obtain rfl := Option.some.inj h
      rw [← String.toList_inj, String.toList_append, String.toList_ofList, ← hmore,
        List.drop_left]
    · cases h
  · rintro rfl
    rw [if_pos (List.isPrefixOf_iff_prefix.2 ⟨_, String.toList_append.symm⟩),
      String.toList_append, List.drop_left, String.ofList_toList]

/-- A table does not have a key if none of its dependencies has it. -/
theorem hasKey_eq_false_iff {key : String} :
    hasKey deps key = false ↔ ∀ d ∈ deps, d.key ≠ key := by
  simp [hasKey]

/-- **A table finds a package** by the rules. -/
theorem findPackage?_eq_some_iff :
    findPackage? deps name = some words ↔ TableReaches deps name words := by
  rw [findPackage?]
  constructor
  · intro h
    cases hkey : hasKey deps name with
    | true =>
        rw [if_pos hkey] at h
        exact Option.some.inj h ▸ .key (hasKey_eq_true_iff.1 hkey)
    | false =>
        have hkeys := hasKey_eq_false_iff.1 hkey
        rw [if_neg (Bool.not_eq_true _ ▸ hkey)] at h
        cases hrenamed : deps.find? (·.package = some name) with
        | some d =>
            rw [hrenamed] at h
            obtain ⟨hd, before, after, hdeps, hbefore⟩ := List.find?_eq_some_iff_append.1 hrenamed
            refine Option.some.inj h ▸ .renamed hkeys hdeps (fun e he => ?_) (of_decide_eq_true hd)
            simpa using hbefore e he
        | none =>
            rw [hrenamed] at h
            have hpackages : ∀ e ∈ deps, e.package ≠ some name := by
              simpa using List.find?_eq_none.1 hrenamed
            cases hshort : shortName? name with
            | none =>
                rw [hshort] at h
                cases h
            | some short =>
                rw [hshort] at h
                obtain ⟨umbrella, hfound, rfl⟩ := Option.map_eq_some_iff.1 h
                obtain ⟨hu, before, after, humbrellas, hbefore⟩ :=
                  List.find?_eq_some_iff_append.1 hfound
                refine .umbrella hkeys hpackages (shortName?_eq_some_iff.1 hshort) humbrellas
                  (fun u hmem => hasKey_eq_false_iff.1 ?_) (hasKey_eq_true_iff.1 hu)
                simpa using hbefore u hmem
  · intro h
    cases h with
    | key hkey => rw [if_pos (hasKey_eq_true_iff.2 hkey)]
    | @renamed before after d hkeys hdeps hbefore hpackage =>
        have hfound : deps.find? (·.package = some name) = some d := by
          refine List.find?_eq_some_iff_append.2 ⟨decide_eq_true hpackage, before, after, hdeps, ?_⟩
          exact fun e he => by simpa using hbefore e he
        rw [hasKey_eq_false_iff.2 hkeys, hfound]
        rfl
    | @umbrella before after umbrella short hkeys hpackages hname humbrellas hbefore hkey =>
        have hrenamed : deps.find? (·.package = some name) = none :=
          List.find?_eq_none.2 fun e he => by simpa using hpackages e he
        have hfound : umbrellas.find? (hasKey deps) = some umbrella := by
          refine List.find?_eq_some_iff_append.2
            ⟨hasKey_eq_true_iff.2 hkey, before, after, humbrellas, fun u hu => ?_⟩
          rw [hasKey_eq_false_iff.2 (hbefore u hu)]
          rfl
        rw [hasKey_eq_false_iff.2 hkeys, hrenamed, shortName?_eq_some_iff.2 hname, hfound]
        rfl

/-- A table finds no package exactly if no rule applies. -/
theorem findPackage?_eq_none_iff :
    findPackage? deps name = none ↔ ∀ words, ¬TableReaches deps name words := by
  simp only [← findPackage?_eq_some_iff, Option.eq_none_iff_forall_not_mem, Option.mem_def]

namespace Manifest

variable {m : Manifest}

/-- The segments under which some tables reach a package, which provide none of themselves. -/
def NoneReaches (m : Manifest) (tables : List String) (name : String) : Prop :=
  ∀ table ∈ tables, ∀ deps, m.table? table = some deps → ∀ words, ¬TableReaches deps name words

/-- **The segments under which a crate reaches a package:** those of the first table that reaches
it, or else its own name. -/
inductive Reaches (m : Manifest) (name : String) : List String → Prop
  | table {before after : List String} {table : String} {deps : List Dependency}
      {words : List String} (htables : dependencyTables = before ++ table :: after)
      (hbefore : m.NoneReaches before name) (hdeps : m.table? table = some deps)
      (hwords : TableReaches deps name words) : Reaches m name words
  | ownName (hnone : m.NoneReaches dependencyTables name) : Reaches m name [name]

/-- What is found in the tables that a manifest has is found in its tables one after the other. -/
theorem findSome?_filterMap (f : String → Option (List Dependency))
    (g : List Dependency → Option (List String)) (tables : List String) :
    (tables.filterMap f).findSome? g = tables.findSome? fun table => (f table).bind g := by
  induction tables with
  | nil => rfl
  | cons table tables ih =>
      rw [List.findSome?_cons, ← ih]
      cases h : f table with
      | none => rw [List.filterMap_cons_none h, Option.bind_none]
      | some deps => rw [List.filterMap_cons_some h, List.findSome?_cons, Option.bind_some]

/-- None of the tables reaches a package exactly if none finds it. -/
theorem noneReaches_iff {tables : List String} :
    m.NoneReaches tables name ↔
      ∀ table ∈ tables, (m.table? table).bind (findPackage? · name) = none := by
  simp only [NoneReaches, Option.bind_eq_none_iff, findPackage?_eq_none_iff]

/-- **The segments are those of the rules.** -/
theorem segments_eq_iff : m.segments name = words ↔ m.Reaches name words := by
  rw [segments, findSome?_filterMap]
  constructor
  · intro h
    cases hfound : dependencyTables.findSome? fun table =>
        (m.table? table).bind (findPackage? · name) with
    | none =>
        rw [hfound] at h
        exact h ▸ .ownName (noneReaches_iff.2 (List.findSome?_eq_none_iff.1 hfound))
    | some found =>
        rw [hfound] at h
        obtain rfl : found = words := h
        obtain ⟨before, table, after, htables, htable, hbefore⟩ :=
          List.findSome?_eq_some_iff.1 hfound
        obtain ⟨deps, hdeps, hwords⟩ := Option.bind_eq_some_iff.1 htable
        exact .table htables (noneReaches_iff.2 hbefore) hdeps (findPackage?_eq_some_iff.1 hwords)
  · intro h
    cases h with
    | @table before after table deps words htables hbefore hdeps hwords =>
        have htable : (m.table? table).bind (findPackage? · name) = some words :=
          Option.bind_eq_some_iff.2 ⟨deps, hdeps, findPackage?_eq_some_iff.2 hwords⟩
        rw [List.findSome?_eq_some_iff.2
          ⟨before, table, after, htables, htable, noneReaches_iff.1 hbefore⟩]
        rfl
    | ownName hnone =>
        rw [List.findSome?_eq_none_iff.2 (noneReaches_iff.1 hnone)]
        rfl

end Manifest

/-! ### Paths -/

/-- An identifier has no hyphen. -/
theorem IsFieldName.hyphen_not_mem {name : String} (h : IsFieldName name) : '-' ∉ name.toList :=
  h.isWordText.1.not_mem (by decide +kernel) (by decide)

/-- Identifiers are the segments of a path. -/
theorem absolutePath_of_identifiers (hne : words ≠ []) (h : ∀ w ∈ words, IsFieldName w) :
    absolutePath words = .ok ⟨words⟩ := by
  simp only [absolutePath, CratePath.ofText?_of_identifiers hne h]

/-- A key with a hyphen is no segment of a path. -/
theorem absolutePath_of_hyphen {key : String} (h : IsDependencyName key.toList)
    (hhyphen : '-' ∈ key.toList) : absolutePath [key] = .error ⟨key⟩ := by
  simp only [absolutePath, String.intercalate_singleton, h.ofText?_eq_none hhyphen]

/-- The umbrellas are identifiers. -/
theorem isFieldName_of_mem_umbrellas : ∀ u ∈ umbrellas, IsFieldName u := by
  have hwords : ∀ u ∈ umbrellas, IsWord u.toList ∧ u ∉ keywords := by decide +kernel
  exact fun u hu => .bare (hwords u hu).1 (hwords u hu).2

namespace TableReaches

/-- The segments under which a package is reached are one at least. -/
theorem ne_nil (h : TableReaches deps name words) : words ≠ [] := by
  cases h <;> exact List.cons_ne_nil _ _

/-- What a table reaches are identifiers, or it is the key of a renamed dependency, with a
hyphen. -/
theorem identifiers_or_hyphen (h : TableReaches deps name words)
    (hkeys : ∀ d ∈ deps, IsDependencyName d.key.toList ∧ d.key ∉ keywords)
    (hname : IsFieldName name)
    (hshort : ∀ short, name = packagePrefix ++ short → IsFieldName short) :
    (∀ w ∈ words, IsFieldName w) ∨
      ∃ d ∈ deps, words = [d.key] ∧ d.package = some name ∧ '-' ∈ d.key.toList := by
  cases h with
  | key _ => exact .inl (List.forall_mem_singleton.2 hname)
  | @renamed before after d _ hdeps _ hpackage =>
      have hd : d ∈ deps := hdeps ▸ List.mem_append_right _ List.mem_cons_self
      obtain ⟨hkey, hkeyword⟩ := hkeys d hd
      by_cases hhyphen : '-' ∈ d.key.toList
      · exact .inr ⟨d, hd, rfl, hpackage, hhyphen⟩
      · exact .inl (List.forall_mem_singleton.2 (hkey.isFieldName hkeyword hhyphen))
  | @umbrella before after umbrella short _ _ hshorter humbrellas _ _ =>
      have hmem : umbrella ∈ umbrellas := humbrellas ▸ List.mem_append_right _ List.mem_cons_self
      exact .inl (List.forall_mem_cons.2 ⟨isFieldName_of_mem_umbrellas _ hmem,
        List.forall_mem_singleton.2 (hshort short hshorter)⟩)

end TableReaches

namespace Manifest

variable {m : Manifest}

/-- **The dependencies of a manifest have names that it may give them,** and none is a keyword. -/
def HasValidKeys (m : Manifest) : Prop :=
  ∀ table ∈ dependencyTables, ∀ deps ∈ m.table? table, ∀ d ∈ deps,
    IsDependencyName d.key.toList ∧ d.key ∉ keywords

instance (m : Manifest) : Decidable m.HasValidKeys :=
  inferInstanceAs (Decidable (∀ table ∈ dependencyTables, ∀ deps ∈ m.table? table, ∀ d ∈ deps,
    IsDependencyName d.key.toList ∧ d.key ∉ keywords))

/-- Segments that are identifiers are the path. -/
theorem cratePath_of_identifiers (hsegments : m.segments name = words) (hne : words ≠ [])
    (h : ∀ w ∈ words, IsFieldName w) : m.cratePath name = .ok ⟨words⟩ := by
  rw [cratePath, hsegments, absolutePath_of_identifiers hne h]

/-- **A path results, unless a key with a hyphen is taken over.** The segments are those of the one
rule that applies. They make a path as they are if none has a hyphen. Only the key of a renamed
dependency can have one, and then its text is reported to be no path. -/
theorem cratePath_ok_or_hyphen (hkeys : m.HasValidKeys) (hname : IsFieldName name)
    (hshort : ∀ short, name = packagePrefix ++ short → IsFieldName short) :
    ∃ words, m.Reaches name words ∧ (∀ words', m.Reaches name words' → words' = words) ∧
      ((∀ w ∈ words, '-' ∉ w.toList) ∧ m.cratePath name = .ok ⟨words⟩ ∨
        ∃ table ∈ dependencyTables, ∃ deps, m.table? table = some deps ∧ ∃ d ∈ deps,
          words = [d.key] ∧ d.package = some name ∧ '-' ∈ d.key.toList ∧
            m.cratePath name = .error ⟨d.key⟩) := by
  obtain ⟨words, hsegments⟩ : ∃ words, m.segments name = words := ⟨_, rfl⟩
  have hreaches := segments_eq_iff.1 hsegments
  have hidentifiers : words ≠ [] → (∀ w ∈ words, IsFieldName w) →
      (∀ w ∈ words, '-' ∉ w.toList) ∧ m.cratePath name = .ok ⟨words⟩ := fun hne h =>
    ⟨fun w hw => (h w hw).hyphen_not_mem, cratePath_of_identifiers hsegments hne h⟩
  refine ⟨words, hreaches, fun words' h => (segments_eq_iff.2 h).symm.trans hsegments, ?_⟩
  cases hreaches with
  | ownName _ =>
      exact .inl (hidentifiers (List.cons_ne_nil _ _) (List.forall_mem_singleton.2 hname))
  | @table before after table deps _ htables _ hdeps hwords =>
      have htable : table ∈ dependencyTables := htables ▸ List.mem_append_right _ List.mem_cons_self
      rcases hwords.identifiers_or_hyphen (hkeys table htable deps hdeps) hname hshort with
        h | ⟨d, hd, rfl, hpackage, hhyphen⟩
      · exact .inl (hidentifiers hwords.ne_nil h)
      · refine .inr ⟨table, htable, deps, hdeps, d, hd, rfl, hpackage, hhyphen, ?_⟩
        rw [cratePath, hsegments,
          absolutePath_of_hyphen (hkeys table htable deps hdeps d hd).1 hhyphen]

/-- A manifest with one dependency. -/
def ofDependency (key : String) (package : Option String) : Manifest :=
  ⟨[("dependencies", .table [⟨key, package⟩])]⟩

/-- What is left of `vc_access` behind the prefix is an identifier, as it is itself. -/
theorem isFieldName_access : IsFieldName "vc_access" ∧
    ∀ short, "vc_access" = packagePrefix ++ short → IsFieldName short := by
  refine ⟨.bare (by decide +kernel) (by decide), fun short hshort => ?_⟩
  have hfound : shortName? "vc_access" = some "access" := by decide
  obtain rfl := Option.some.inj (hfound.symm.trans (shortName?_eq_some_iff.2 hshort))
  exact .bare (by decide +kernel) (by decide)

/-- The path through an umbrella has no key with a hyphen. -/
theorem umbrella_cratePath :
    ((ofDependency "vc_compiled" none).HasValidKeys ∧ IsFieldName "vc_access" ∧
      ∀ short, "vc_access" = packagePrefix ++ short → IsFieldName short) ∧
    ∃ words, (ofDependency "vc_compiled" none).Reaches "vc_access" words ∧
      words = ["vc_compiled", "access"] ∧
      (ofDependency "vc_compiled" none).cratePath "vc_access" = .ok ⟨words⟩ := by
  have hkeys : (ofDependency "vc_compiled" none).HasValidKeys := by decide +kernel
  obtain ⟨hname, hshort⟩ := isFieldName_access
  obtain ⟨words, hreaches, -, hpath⟩ := cratePath_ok_or_hyphen hkeys hname hshort
  have hwords : ["vc_compiled", "access"] = words := segments_eq_iff.2 hreaches
  refine ⟨⟨hkeys, hname, hshort⟩, words, hreaches, hwords.symm, ?_⟩
  rcases hpath with ⟨-, hok⟩ | ⟨_, _, _, _, d, _, hkey, -⟩
  · exact hok
  · exact absurd (congrArg List.length (hwords.trans hkey)) (Nat.succ_ne_self 1)

/-- A dependency may be renamed to a name with a hyphen, and then no path results. -/
theorem hyphen_cratePath :
    (ofDependency "my-acc" (some "vc_access")).HasValidKeys ∧ IsFieldName "vc_access" ∧
      (∀ short, "vc_access" = packagePrefix ++ short → IsFieldName short) ∧
      (ofDependency "my-acc" (some "vc_access")).cratePath "vc_access" = .error ⟨"my-acc"⟩ ∧
      ¬∃ path, (ofDependency "my-acc" (some "vc_access")).cratePath "vc_access" = .ok path := by
  have herror : (ofDependency "my-acc" (some "vc_access")).cratePath "vc_access" =
      .error ⟨"my-acc"⟩ := by decide +kernel
  obtain ⟨hname, hshort⟩ := isFieldName_access
  refine ⟨by decide +kernel, hname, hshort, herror, ?_⟩
  rintro ⟨path, hok⟩
  cases herror.symm.trans hok

end Manifest

/-! ### Packages of dependencies -/

namespace Dependency

/-- **The package of a dependency** is the one that it is renamed from, or else its key. -/
def Provides (d : Dependency) (name : String) : Prop :=
  d.package.getD d.key = name

instance (d : Dependency) (name : String) : Decidable (d.Provides name) :=
  inferInstanceAs (Decidable (_ = _))

/-- **The name of the crate** of a dependency in code: its key, with underscores for hyphens. -/
def crateName (d : Dependency) : String :=
  String.ofList (d.key.toList.map fun c => if c = '-' then '_' else c)

/-- A key that is a name of a field is a name of a crate as it stands. -/
theorem crateName_of_isFieldName {d : Dependency} (h : IsFieldName d.key) :
    d.crateName = d.key := by
  have hkept : ∀ c ∈ d.key.toList, (if c = '-' then '_' else c) = c := by
    intro c hc
    refine if_neg ?_
    rintro rfl
    exact h.hyphen_not_mem hc
  rw [crateName, List.map_congr_left hkept, List.map_id', String.ofList_toList]

/-- A package is provided under its own key, or by a dependency that is renamed from it. -/
theorem Provides.key_or_package {d : Dependency} (h : d.Provides name) :
    d.key = name ∨ d.package = some name := by
  rw [Provides] at h
  cases hpackage : d.package with
  | none =>
      rw [hpackage] at h
      exact .inl h
  | some package =>
      rw [hpackage] at h
      exact .inr (congrArg some h)

/-- A dependency that is renamed from a package provides it. -/
theorem provides_of_package {d : Dependency} (h : d.package = some name) : d.Provides name := by
  rw [Provides, h]
  rfl

end Dependency

/-- A package that is provided, but whose name is no key, is reached by the key of a dependency that
is renamed from it. -/
theorem TableReaches.exists_renamed (hprovides : ∃ d ∈ deps, d.Provides name)
    (hkeys : ∀ d ∈ deps, d.key ≠ name) :
    ∃ d ∈ deps, d.package = some name ∧ TableReaches deps name [d.key] := by
  obtain ⟨d, hd, hpackage⟩ : ∃ d ∈ deps, d.package = some name := by
    obtain ⟨d, hd, hprovided⟩ := hprovides
    exact ⟨d, hd, hprovided.key_or_package.resolve_left (hkeys d hd)⟩
  cases hfound : deps.find? (·.package = some name) with
  | none => exact absurd (decide_eq_true hpackage) (List.find?_eq_none.1 hfound d hd)
  | some first =>
      obtain ⟨hfirst, before, after, hdeps, hbefore⟩ := List.find?_eq_some_iff_append.1 hfound
      refine ⟨first, List.mem_of_find?_eq_some hfound, of_decide_eq_true hfirst, ?_⟩
      exact .renamed hkeys hdeps (fun e he => by simpa using hbefore e he)
        (of_decide_eq_true hfirst)

namespace Manifest

variable {m : Manifest}

/-- What the first table reaches is what the crate reaches. -/
theorem segments_of_dependencies (hdeps : m.table? "dependencies" = some deps)
    (h : TableReaches deps name words) : m.segments name = words := by
  have hnone : m.NoneReaches [] name := fun _ hmem => absurd hmem List.not_mem_nil
  exact segments_eq_iff.2 (.table rfl hnone hdeps h)

/-- **A package that a dependency provides is named by one that does,** unless its name is the key
of a dependency that is renamed from another package: a key counts before all packages, and then
the path is that key. -/
theorem cratePath_of_provides (hdeps : m.table? "dependencies" = some deps)
    (hprovides : ∃ d ∈ deps, d.Provides name) :
    ((∀ d ∈ deps, d.key = name → d.Provides name) →
      ∃ d ∈ deps, d.Provides name ∧ m.segments name = [d.key] ∧
        (IsFieldName d.key → m.cratePath name = .ok ⟨[d.crateName]⟩)) ∧
    ((∃ d ∈ deps, d.key = name) → m.segments name = [name] ∧
      (IsFieldName name → m.cratePath name = .ok ⟨[name]⟩)) := by
  have hown : (∃ d ∈ deps, d.key = name) → m.segments name = [name] := fun hkey =>
    segments_of_dependencies hdeps (.key hkey)
  have hpath : ∀ {word : String}, m.segments name = [word] → IsFieldName word →
      m.cratePath name = .ok ⟨[word]⟩ := fun hsegments h =>
    cratePath_of_identifiers hsegments (List.cons_ne_nil _ _) (List.forall_mem_singleton.2 h)
  refine ⟨fun hkept => ?_, fun hkey => ⟨hown hkey, hpath (hown hkey)⟩⟩
  obtain ⟨d, hd, hprovided, hsegments⟩ :
      ∃ d ∈ deps, d.Provides name ∧ m.segments name = [d.key] := by
    by_cases hkey : ∃ d ∈ deps, d.key = name
    · obtain ⟨d, hd, rfl⟩ := hkey
      exact ⟨d, hd, hkept d hd rfl, hown ⟨d, hd, rfl⟩⟩
    · have hkeys : ∀ d ∈ deps, d.key ≠ name := fun d hd heq => hkey ⟨d, hd, heq⟩
      obtain ⟨d, hd, hpackage, hreaches⟩ := TableReaches.exists_renamed hprovides hkeys
      exact ⟨d, hd, Dependency.provides_of_package hpackage,
        segments_of_dependencies hdeps hreaches⟩
  refine ⟨d, hd, hprovided, hsegments, fun hidentifier => ?_⟩
  rw [Dependency.crateName_of_isFieldName hidentifier]
  exact hpath hsegments hidentifier

/-- A dependency that is renamed is named by its key. -/
theorem renamed_cratePath :
    ((ofDependency "acc" (some "vc_access")).table? "dependencies" =
        some [⟨"acc", some "vc_access"⟩] ∧
      ∃ d ∈ [(⟨"acc", some "vc_access"⟩ : Dependency)], d.Provides "vc_access") ∧
    (ofDependency "acc" (some "vc_access")).cratePath "vc_access" = .ok ⟨["acc"]⟩ := by
  have hprovides : ∃ d ∈ [(⟨"acc", some "vc_access"⟩ : Dependency)], d.Provides "vc_access" :=
    ⟨_, List.mem_cons_self, rfl⟩
  obtain ⟨hnamed, -⟩ := cratePath_of_provides
    (rfl : (ofDependency "acc" (some "vc_access")).table? "dependencies" = _) hprovides
  obtain ⟨d, hd, -, -, hpath⟩ := hnamed fun d hd _ => List.mem_singleton.1 hd ▸ rfl
  obtain rfl := List.mem_singleton.1 hd
  exact ⟨⟨rfl, hprovides⟩, hpath (.bare (by decide +kernel) (by decide))⟩

/-- A manifest that gives the name of one package to another. -/
def reusedKey : Manifest :=
  ⟨[("dependencies", .table [⟨"vc_access", some "other"⟩, ⟨"acc", some "vc_access"⟩])]⟩

/-- A package is not named by the dependency that provides it if another one has its name. -/
theorem reusedKey_cratePath :
    reusedKey.table? "dependencies" =
        some [⟨"vc_access", some "other"⟩, ⟨"acc", some "vc_access"⟩] ∧
      (∃ d ∈ [(⟨"vc_access", some "other"⟩ : Dependency), ⟨"acc", some "vc_access"⟩],
        d.Provides "vc_access") ∧
      reusedKey.cratePath "vc_access" = .ok ⟨["vc_access"]⟩ ∧
      ¬∃ d ∈ [(⟨"vc_access", some "other"⟩ : Dependency), ⟨"acc", some "vc_access"⟩],
        d.Provides "vc_access" ∧ reusedKey.cratePath "vc_access" = .ok ⟨[d.crateName]⟩ := by
  decide +kernel

end Manifest

end MemberAccess
