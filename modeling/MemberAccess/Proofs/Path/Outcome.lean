import MemberAccess.Proofs.Objects.Registry
import MemberAccess.Proofs.Path.Resolution

/-!
# The outcome of resolution

Names are resolved one after the other, so the outcome is decided at the first name that the type
reached there does not find. If there is none, the path is the resolution of the names; otherwise
the type at hand tells the error. In a registry without a cycle of wrappers one of the two is always
the case, and resolution ends with it.

## Main definitions

* `TypeInfo.Finds`, `TypeInfo.Refuses`: what a type answers to a name.
* `Registry.Reaches`: the type at which the name after a list of names is looked up.
* `Registry.FailsFirst`: the error of the first name that is not found.

## Main results

* `Registry.resolves_or_failsFirst`: names resolve, or one of them fails first.
* `Registry.resolve_wellTyped_or_first_error`: resolution answers with that.
-/

namespace MemberAccess

variable {U : Universe} {r : Registry U}

/-! ### One name -/

/-- **A type finds a member of its own** under a name. -/
def TypeInfo.Finds (i : TypeInfo U) (name : String) (m : Member U) : Prop :=
  ∃ table, i.composite? = some table ∧ table.find? name = some m ∧ m.owner = i.id

/-- **A type refuses a name:** it is no composite, its table does not have the name, or the member
found there belongs to another type. -/
inductive TypeInfo.Refuses (i : TypeInfo U) (name : String) : InvalidPath → Prop
  | noMembers (h : i.composite? = none) : Refuses i name (.noMembers i.name name)
  | unknownMember {table : MemberTable (Member U)} (htable : i.composite? = some table)
      (h : table.find? name = none) : Refuses i name (.unknownMember i.name name)
  | foreignMember {table : MemberTable (Member U)} {m : Member U}
      (htable : i.composite? = some table) (hfound : table.find? name = some m)
      (h : m.owner ≠ i.id) : Refuses i name (.memberOwnerMismatch i.name m.name)

/-- A type finds a name or refuses it. -/
theorem TypeInfo.finds_or_refuses (i : TypeInfo U) (name : String) :
    (∃ m, i.Finds name m) ∨ ∃ e, i.Refuses name e := by
  cases htable : i.composite? with
  | none => exact .inr ⟨_, .noMembers htable⟩
  | some table =>
      cases hfound : table.find? name with
      | none => exact .inr ⟨_, .unknownMember htable hfound⟩
      | some m =>
          by_cases howner : m.owner = i.id
          · exact .inl ⟨m, table, htable, hfound, howner⟩
          · exact .inr ⟨_, .foreignMember htable hfound howner⟩

/-- In a tabulated type, a member is found under its own name. -/
theorem TypeInfo.Tabulated.name_of_find? {i : TypeInfo U} (hi : i.Tabulated)
    {table : MemberTable (Member U)} {name : String} {m : Member U}
    (htable : i.composite? = some table) (hfound : table.find? name = some m) : m.name = name := by
  obtain ⟨members, rfl⟩ := hi table htable
  exact MemberTable.name_of_find? hfound

/-! ### Names up to a type -/

namespace Registry

/-- **Names lead to a type:** each is found in the type reached before it, and the wrappers around
the member's value cross to the next. -/
inductive Reaches (r : Registry U) :
    TypeInfo U → List String → List (Descriptor U) → TypeInfo U → Prop
  | here {owner : TypeInfo U} : Reaches r owner [] [] owner
  | step {owner next last : TypeInfo U} {m : Member U} {ws : List (Wrapper U)} {name : String}
      {more : List String} {ds : List (Descriptor U)} (hfinds : owner.Finds name m)
      (hcross : r.Crosses (r.info m.value) ws next) (rest : Reaches r next more ds last) :
      Reaches r owner (name :: more) (⟨m, owner, ws⟩ :: ds) last

/-- **The first failure** of names: those before it lead to a type that refuses it. -/
inductive FailsFirst (r : Registry U) (root : TypeInfo U) : List String → InvalidPath → Prop
  | refused {owner : TypeInfo U} {front back : List String} {name : String}
      {ds : List (Descriptor U)} {e : InvalidPath} (hreach : r.Reaches root front ds owner)
      (hrefuses : owner.Refuses name e) : FailsFirst r root (front ++ name :: back) e

/-- What fails behind a name that is found, fails with the name. -/
theorem FailsFirst.step {owner next : TypeInfo U} {m : Member U} {ws : List (Wrapper U)}
    {name : String} {more : List String} {e : InvalidPath} (hfinds : owner.Finds name m)
    (hcross : r.Crosses (r.info m.value) ws next) (h : r.FailsFirst next more e) :
    r.FailsFirst owner (name :: more) e := by
  cases h with
  | refused hreach hrefuses => exact .refused (.step hfinds hcross hreach) hrefuses

/-- What resolves behind a name that is found, resolves with the name. -/
theorem Resolves.cons {owner next : TypeInfo U} {m : Member U} {ws : List (Wrapper U)}
    {name : String} {more : List String} {ds : List (Descriptor U)} (hfinds : owner.Finds name m)
    (hcross : r.Crosses (r.info m.value) ws next) (h : r.Resolves next more ds) :
    r.Resolves owner (name :: more) (⟨m, owner, ws⟩ :: ds) := by
  obtain ⟨table, htable, hfound, howner⟩ := hfinds
  cases h with
  | last htable' hfound' howner' =>
      exact .step htable hfound howner hcross (.last htable' hfound' howner')
  | step htable' hfound' howner' hcross' rest =>
      exact .step htable hfound howner hcross (.step htable' hfound' howner' hcross' rest)

/-- **Names resolve, or one of them fails first.** -/
theorem resolves_or_failsFirst (hr : r.Acyclic) (owner : TypeInfo U) {names : List String}
    (hnames : names ≠ []) :
    (∃ ds, r.Resolves owner names ds) ∨ ∃ e, r.FailsFirst owner names e := by
  induction names generalizing owner with
  | nil => exact absurd rfl hnames
  | cons name more ih =>
      rcases owner.finds_or_refuses name with ⟨m, hfinds⟩ | ⟨e, hrefuses⟩
      · obtain ⟨table, htable, hfound, howner⟩ := hfinds
        cases more with
        | nil => exact .inl ⟨_, .last htable hfound howner⟩
        | cons second more =>
            obtain ⟨ws, next, hcross⟩ := exists_cross hr m.value
            have hcross := crosses_of_cross hcross
            rcases ih next (List.cons_ne_nil _ _) with ⟨ds, hresolves⟩ | ⟨e, hfails⟩
            · exact .inl ⟨_, .step htable hfound howner hcross hresolves⟩
            · exact .inr ⟨e, .step ⟨table, htable, hfound, howner⟩ hcross hfails⟩
      · have hfails : r.FailsFirst owner ([] ++ name :: more) e := .refused .here hrefuses
        exact .inr ⟨e, hfails⟩

/-! ### What resolution answers -/

/-- Names that resolve are resolved to that. -/
theorem Resolves.resolveFrom_eq {owner : TypeInfo U} {names : List String}
    {ds : List (Descriptor U)} (h : r.Resolves owner names ds) :
    r.resolveFrom owner names = some (.ok ds) := by
  induction h with
  | last htable hfound howner =>
      rw [resolveFrom]
      simp only [htable, hfound, howner, ne_eq, not_true_eq_false, if_false, if_true]
  | @step owner next table m ws name second more ds htable hfound howner hcross _ ih =>
      have hcross := hcross.cross_eq
      rw [resolveFrom]
      simp only [htable, hfound, howner, hcross, ih, ne_eq, not_true_eq_false, if_false,
        reduceCtorEq, Option.map_some, Except.map]

/-- A name that is refused at once is the outcome. -/
theorem resolveFrom_of_refuses {owner : TypeInfo U} {name : String} {e : InvalidPath}
    (h : owner.Refuses name e) (more : List String) :
    r.resolveFrom owner (name :: more) = some (.error e) := by
  rw [resolveFrom]
  cases h with
  | noMembers h => simp only [h]
  | unknownMember htable h => simp only [htable, h]
  | foreignMember htable hfound h =>
      simp only [htable, hfound, ne_eq, h, not_false_eq_true, if_true]

/-- **Names of which one fails first** are answered with its error. -/
theorem FailsFirst.resolveFrom_eq {owner : TypeInfo U} {names : List String}
    {e : InvalidPath} (h : r.FailsFirst owner names e) :
    r.resolveFrom owner names = some (.error e) := by
  obtain ⟨hreach, hrefuses⟩ := h
  rename_i last front back name ds
  induction hreach with
  | here => exact resolveFrom_of_refuses hrefuses back
  | @step owner next last m ws first more ds hfinds hcross _ ih =>
      obtain ⟨table, htable, hfound, howner⟩ := hfinds
      have hcross := hcross.cross_eq
      have hmore : more ++ name :: back ≠ [] := by simp
      rw [List.cons_append, resolveFrom]
      simp only [htable, hfound, howner, hcross, hmore, ih hrefuses, ne_eq, not_true_eq_false,
        if_false, Option.map_some, Except.map]

/-- An error of names is one of their resolution. -/
theorem resolve_eq_error_of_resolveFrom {root : TypeInfo U} {names : List String}
    {e : InvalidPath} (h : r.resolveFrom root names = some (.error e)) :
    r.resolve root names = some (.error e) := by
  rw [resolve, h]
  rfl

/-- A resolution is not empty, and is that of a path. -/
theorem Resolves.resolve_eq {root : TypeInfo U} {names : List String} {p : Path U}
    (hroot : p.root = root) (h : r.Resolves root names p.members) :
    r.resolve root names = some (.ok p) := by
  obtain ⟨root', members, nonempty⟩ := p
  obtain rfl : root' = root := hroot
  rw [resolve, h.resolveFrom_eq]
  cases members with
  | nil => exact absurd rfl nonempty
  | cons d ds => rfl

/-- A specification whose names are resolved is parsed, and its path is logged. -/
theorem parse_of_resolve {root : TypeInfo U} {spec : PathSpec} {names : List String} {p : Path U}
    (hnames : spec.memberNames = .ok names) (h : r.resolve root names = some (.ok p)) :
    r.parse root spec = some ⟨.ok p, [.parsed p.fullName root.name]⟩ := by
  rw [parse, hnames]
  simp only [h, Option.map_some]
  rfl

/-- **Resolution answers** with the path that the names resolve to, or with the error of the one
that fails first. -/
theorem resolve_cases (hr : r.Acyclic) (root : TypeInfo U) {names : List String}
    (hnames : names ≠ []) :
    (∃ p, r.resolve root names = some (.ok p) ∧ p.root = root ∧
        r.Resolves root names p.members) ∨
      ∃ e, r.resolve root names = some (.error e) ∧ r.FailsFirst root names e := by
  rcases resolves_or_failsFirst hr root hnames with ⟨ds, hds⟩ | ⟨e, he⟩
  · have hne : ds ≠ [] := by
      rintro rfl
      cases hds
    exact .inl ⟨⟨root, ds, hne⟩, Resolves.resolve_eq rfl hds, rfl, hds⟩
  · exact .inr ⟨e, resolve_eq_error_of_resolveFrom he.resolveFrom_eq, he⟩

/-! ### The shape of a resolution -/

/-- **A resolution has a member for each name,** which bears the name. -/
theorem Resolves.names_eq (htables : ∀ t, (r.info t).Tabulated) {owner : TypeInfo U}
    (howner : owner.Tabulated) {names : List String} {ds : List (Descriptor U)}
    (h : r.Resolves owner names ds) : ds.map (·.member.name) = names := by
  induction h with
  | last htable hfound _ => exact congrArg ([·]) (howner.name_of_find? htable hfound)
  | step htable hfound _ hcross _ ih =>
      obtain ⟨t, rfl⟩ := hcross.exists_info
      rw [List.map_cons, ih (htables t), howner.name_of_find? htable hfound]

/-- A resolution has a member. -/
theorem Resolves.ne_nil {owner : TypeInfo U} {names : List String} {ds : List (Descriptor U)}
    (h : r.Resolves owner names ds) : ds ≠ [] := by
  cases h with
  | last _ _ _ => exact List.cons_ne_nil _ _
  | step _ _ _ _ _ => exact List.cons_ne_nil _ _

/-- No wrapper is crossed after the last member of a resolution. -/
theorem Resolves.unwraps_getLast {owner : TypeInfo U} {names : List String}
    {ds : List (Descriptor U)} (h : r.Resolves owner names ds) :
    (ds.getLast h.ne_nil).unwraps = [] := by
  induction h with
  | last => rfl
  | step _ _ _ _ hrest ih => rw [List.getLast_cons hrest.ne_nil, ih]

/-! ### The outcome -/

/-- **Resolution builds the well-typed path, or tells the first error.** In a registry without a
cycle of wrappers, resolving names always ends. It ends with a path exactly if the names resolve:
each is found in a composite type, as a member of that type, and the next type is inside all
wrappers around the member's value. The path has these members with their owners and wrappers, none
after the last, and its names are those that were resolved. Otherwise it ends with the error of the
first name that the type reached before it refuses. -/
theorem resolve_wellTyped_or_first_error (hr : r.Acyclic) (htables : ∀ t, (r.info t).Tabulated)
    {root : TypeInfo U} (hroot : root.Tabulated) {names : List String} (hnames : names ≠ []) :
    (∀ p, r.resolve root names = some (.ok p) ↔
        p.root = root ∧ r.Resolves root names p.members) ∧
      (∀ p, r.resolve root names = some (.ok p) →
        p.members.length = names.length ∧ p.terminal.unwraps = [] ∧ p.names = names) ∧
      (∀ e, r.resolve root names = some (.error e) ↔ r.FailsFirst root names e) ∧
      ((∃ p, r.resolve root names = some (.ok p)) ∨
        ∃ e, r.resolve root names = some (.error e)) := by
  have hok : ∀ p, p.root = root ∧ r.Resolves root names p.members →
      r.resolve root names = some (.ok p) := fun p h => h.2.resolve_eq h.1
  have herror : ∀ e, r.FailsFirst root names e → r.resolve root names = some (.error e) :=
    fun e h => resolve_eq_error_of_resolveFrom h.resolveFrom_eq
  have houtcome : (∃ p, r.resolve root names = some (.ok p)) ∨
      ∃ e, r.FailsFirst root names e ∧ r.resolve root names = some (.error e) := by
    rcases resolves_or_failsFirst hr root hnames with ⟨ds, hds⟩ | ⟨e, he⟩
    · exact .inl ⟨⟨root, ds, hds.ne_nil⟩, hok _ ⟨rfl, hds⟩⟩
    · exact .inr ⟨e, he, herror e he⟩
  refine ⟨fun p => ⟨resolves_of_resolve, hok p⟩, fun p hp => ?_, fun e => ⟨fun he => ?_, herror e⟩,
    houtcome.imp_right fun ⟨e, _, he⟩ => ⟨e, he⟩⟩
  · obtain ⟨-, hresolves⟩ := resolves_of_resolve hp
    have hlist : p.names = names := hresolves.names_eq htables hroot
    refine ⟨?_, hresolves.unwraps_getLast, hlist⟩
    rw [← hlist, Path.names, List.length_map]
  · rcases houtcome with ⟨p, hp⟩ | ⟨e', hfails, he'⟩
    · cases hp.symm.trans he
    · cases he'.symm.trans he
      exact hfails

end Registry

/-- In the objects that may be linked to a next one, the names of the next and of its count resolve
to a path or fail, and the outcome tells which. -/
theorem Declarations.linked_resolve_outcome :
    ((linked.registry []).Acyclic ∧ (∀ t, ((linked.registry []).info t).Tabulated) ∧
        ((linked.registry []).info (Ty.declared 0)).Tabulated ∧ ["next", "count"] ≠ []) ∧
      (∀ p, (linked.registry []).resolve ((linked.registry []).info (Ty.declared 0))
            ["next", "count"] = some (.ok p) ↔
          p.root = (linked.registry []).info (Ty.declared 0) ∧
            (linked.registry []).Resolves ((linked.registry []).info (Ty.declared 0))
              ["next", "count"] p.members) ∧
      (∀ p, (linked.registry []).resolve ((linked.registry []).info (Ty.declared 0))
            ["next", "count"] = some (.ok p) →
          p.members.length = 2 ∧ p.terminal.unwraps = [] ∧ p.names = ["next", "count"]) ∧
      (∀ e, (linked.registry []).resolve ((linked.registry []).info (Ty.declared 0))
            ["next", "count"] = some (.error e) ↔
          (linked.registry []).FailsFirst ((linked.registry []).info (Ty.declared 0))
            ["next", "count"] e) ∧
      ((∃ p, (linked.registry []).resolve ((linked.registry []).info (Ty.declared 0))
            ["next", "count"] = some (.ok p)) ∨
        ∃ e, (linked.registry []).resolve ((linked.registry []).info (Ty.declared 0))
            ["next", "count"] = some (.error e)) := by
  have hr := linked.acyclic_registry linked_isWrapper []
  have htables := linked.tabulated_registry []
  have hnames : ["next", "count"] ≠ [] := List.cons_ne_nil _ _
  exact ⟨⟨hr, htables, htables _, hnames⟩,
    Registry.resolve_wellTyped_or_first_error hr htables (htables _) hnames⟩

end MemberAccess
