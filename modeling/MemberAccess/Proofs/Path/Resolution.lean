import MemberAccess.Path.Resolve
import MemberAccess.Proofs.Registry.Crossing

/-!
# Resolution, as a relation

A resolved path is a sequence of members, each found in the table of its owner and belonging to that
owner, with a crossing between the value of each member and the owner of the next.
`Registry.Resolves` states this, name by name. In a well-typed registry it follows that the members
before the last lead from the root type to the owner of the last one (`Registry.Leads`): this is the
invariant that every walk along a path rests on.

## Main results

* `Registry.resolves_of_resolve`: what `resolve` finds is a resolution of the names.
* `Path.Typed`, `Registry.typed_of_resolves`: the types along a resolved path fit.
-/

namespace MemberAccess

variable {U : Universe} {r : Registry U}

/-! ### Resolution -/

/-- **A resolution** of names in a type: the members found under them, with their owners and the
wrappers between them. -/
inductive Registry.Resolves (r : Registry U) : TypeInfo U → List String → List (Descriptor U) → Prop
  | last {owner : TypeInfo U} {table : MemberTable (Member U)} {m : Member U} {name : String}
      (htable : owner.composite? = some table) (hfound : table.find? name = some m)
      (howner : m.owner = owner.id) : Resolves r owner [name] [⟨m, owner, []⟩]
  | step {owner next : TypeInfo U} {table : MemberTable (Member U)} {m : Member U}
      {ws : List (Wrapper U)} {name second : String} {more : List String}
      {ds : List (Descriptor U)} (htable : owner.composite? = some table)
      (hfound : table.find? name = some m) (howner : m.owner = owner.id)
      (hcross : r.Crosses (r.info m.value) ws next) (rest : Resolves r next (second :: more) ds) :
      Resolves r owner (name :: second :: more) (⟨m, owner, ws⟩ :: ds)

namespace Registry

/-- What is found in a type under at least one name is a resolution of the names. -/
theorem resolves_of_resolveFrom {owner : TypeInfo U} {names : List String}
    {ds : List (Descriptor U)} (hnames : names ≠ [])
    (h : r.resolveFrom owner names = some (.ok ds)) : r.Resolves owner names ds := by
  induction names generalizing owner ds with
  | nil => exact absurd rfl hnames
  | cons name more ih =>
      rw [resolveFrom] at h
      cases htable : owner.composite? with
      | none => simp only [htable, Option.some.injEq, reduceCtorEq] at h
      | some table =>
          cases hfound : table.find? name with
          | none => simp only [htable, hfound, Option.some.injEq, reduceCtorEq] at h
          | some m =>
              simp only [htable, hfound] at h
              by_cases howner : m.owner = owner.id
              · rw [if_neg (not_not_intro howner)] at h
                cases more with
                | nil =>
                    rw [if_pos rfl] at h
                    obtain rfl : [⟨m, owner, []⟩] = ds := by simpa using h
                    exact .last htable hfound howner
                | cons second more =>
                    rw [if_neg (List.cons_ne_nil _ _)] at h
                    cases hcross : r.cross (r.info m.value) with
                    | none => simp only [hcross, reduceCtorEq] at h
                    | some found =>
                        obtain ⟨ws, next⟩ := found
                        simp only [hcross] at h
                        obtain ⟨later, hlater, hmap⟩ := Option.map_eq_some_iff.1 h
                        cases later with
                        | error e => simp only [Except.map, reduceCtorEq] at hmap
                        | ok rest =>
                            simp only [Except.map, Except.ok.injEq] at hmap
                            subst hmap
                            exact .step htable hfound howner (crosses_of_cross hcross)
                              (ih (List.cons_ne_nil _ _) hlater)
              · rw [if_pos howner] at h
                simp only [Option.some.injEq, reduceCtorEq] at h

/-- **What `resolve` finds** is a path from the root that resolves the names. -/
theorem resolves_of_resolve {root : TypeInfo U} {names : List String} {p : Path U}
    (h : r.resolve root names = some (.ok p)) :
    p.root = root ∧ r.Resolves root names p.members := by
  obtain ⟨found, hfound, hbind⟩ := Option.map_eq_some_iff.1 h
  cases found with
  | error e => simp only [Except.bind, reduceCtorEq] at hbind
  | ok ds =>
      cases ds with
      | nil => simp only [Except.bind, reduceCtorEq] at hbind
      | cons d ds =>
          simp only [Except.bind, Except.ok.injEq] at hbind
          subst hbind
          refine ⟨rfl, resolves_of_resolveFrom ?_ hfound⟩
          rintro rfl
          simp only [resolveFrom, Option.some.injEq, Except.ok.injEq, reduceCtorEq] at hfound

/-- A specification that is parsed spells names, and its path resolves them. -/
theorem resolves_of_parse {root : TypeInfo U} {spec : PathSpec} {p : Path U}
    {log : List LogRecord} (h : r.parse root spec = some ⟨.ok p, log⟩) :
    ∃ names, spec.memberNames = .ok names ∧ p.root = root ∧ r.Resolves root names p.members := by
  rw [parse] at h
  cases hnames : spec.memberNames with
  | error e =>
      simp only [hnames, pure, Option.some.injEq, Logged.mk.injEq, reduceCtorEq, false_and] at h
  | ok names =>
      simp only [hnames] at h
      obtain ⟨found, hfound, hlogged⟩ := Option.map_eq_some_iff.1 h
      cases found with
      | error e => simp only [pure, Logged.mk.injEq, reduceCtorEq, false_and] at hlogged
      | ok q =>
          simp only [bind, pure, Logged.mk.injEq, Except.ok.injEq] at hlogged
          obtain ⟨rfl, -⟩ := hlogged
          exact ⟨names, rfl, resolves_of_resolve hfound⟩

end Registry

/-! ### The types along a path -/

/-- **The members `ds` lead from one type to another:** each belongs to the type reached before it,
and its wrappers cross to the type of the next. -/
inductive Registry.Leads (r : Registry U) : U.Ty → List (Descriptor U) → U.Ty → Prop
  | nil {t : U.Ty} : Leads r t [] t
  | cons {t s v : U.Ty} {d : Descriptor U} {ds : List (Descriptor U)}
      (howner : d.member.owner = t)
      (hcross : r.Crosses (r.info d.member.value) d.unwraps (r.info s)) (rest : Leads r s ds v) :
      Leads r t (d :: ds) v

/-- The first of the members that lead to a type belongs to the type where they start, and the
others start inside the wrappers after it. -/
theorem Registry.Leads.cons_inv {t u : U.Ty} {d : Descriptor U} {ds : List (Descriptor U)}
    (h : r.Leads t (d :: ds) u) : d.member.owner = t ∧ ∃ s,
      r.Crosses (r.info d.member.value) d.unwraps (r.info s) ∧ r.Leads s ds u := by
  cases h with
  | cons howner hcross rest => exact ⟨howner, _, hcross, rest⟩

/-- Members that lead to a type lead to a type on the way first. -/
theorem Registry.Leads.append_inv {t u : U.Ty} {ds es : List (Descriptor U)}
    (h : r.Leads t (ds ++ es) u) : ∃ s, r.Leads t ds s ∧ r.Leads s es u := by
  induction ds generalizing t with
  | nil => exact ⟨t, .nil, h⟩
  | cons d ds ih =>
      obtain ⟨howner, _, hcross, rest⟩ := h.cons_inv
      obtain ⟨s, hds, hes⟩ := ih rest
      exact ⟨s, .cons howner hcross hds, hes⟩

/-- **A path whose types fit:** the members before the last lead to its owner, and no wrapper is
crossed after it. -/
structure Path.Typed (r : Registry U) (p : Path U) : Prop where
  leads : r.Leads p.root.id p.parents p.terminal.member.owner
  unwraps_terminal : p.terminal.unwraps = []

namespace Path

/-- The members of a path are those before the last, and the last. -/
theorem parents_append_terminal (p : Path U) : p.parents ++ [p.terminal] = p.members :=
  List.dropLast_concat_getLast p.nonempty

/-- The members before the last and the last can be read off a list of them. -/
theorem parents_terminal_of_members {p : Path U} {ds : List (Descriptor U)} {d : Descriptor U}
    (h : p.members = ds ++ [d]) : p.parents = ds ∧ p.terminal = d := by
  have happ : p.parents ++ [p.terminal] = ds ++ [d] := p.parents_append_terminal.trans h
  simpa using List.append_inj' happ rfl

/-- A member of a path is the last, or comes before the last. -/
theorem member_cases {p : Path U} {front more : List (Descriptor U)} {d : Descriptor U}
    (h : p.members = front ++ d :: more) :
    (p.parents = front ∧ p.terminal = d) ∨ ∃ more', p.parents = front ++ d :: more' := by
  rcases List.eq_nil_or_concat more with rfl | ⟨more', last, rfl⟩
  · exact .inl (parents_terminal_of_members h)
  · have hmembers : p.members = (front ++ d :: more') ++ [last] := by
      rw [h, List.concat_eq_append, List.append_assoc, List.cons_append]
    exact .inr ⟨more', (parents_terminal_of_members hmembers).1⟩

end Path

namespace Registry

/-- In a well-typed registry, the members of a resolution before the last lead to its owner. -/
theorem Resolves.leads (hr : r.WellTyped) {owner : TypeInfo U} {names : List String}
    {ds : List (Descriptor U)} (h : r.Resolves owner names ds) :
    ∃ front last, ds = front ++ [last] ∧ r.Leads owner.id front last.member.owner ∧
      last.unwraps = [] := by
  induction h with
  | @last owner _ m _ _ _ howner =>
      exact ⟨[], ⟨m, owner, []⟩, rfl, howner ▸ .nil, rfl⟩
  | @step owner next _ m ws _ _ _ ds _ _ howner hcross _ ih =>
      obtain ⟨front, last, rfl, hleads, hunwraps⟩ := ih
      obtain ⟨s, rfl⟩ := hcross.exists_info
      rw [hr.id_info] at hleads
      exact ⟨⟨m, owner, ws⟩ :: front, last, rfl, .cons howner hcross hleads, hunwraps⟩

/-- **The types along a resolved path fit,** in a well-typed registry. -/
theorem typed_of_resolves (hr : r.WellTyped) {p : Path U} {names : List String}
    (h : r.Resolves p.root names p.members) : p.Typed r := by
  obtain ⟨front, last, hmembers, hleads, hunwraps⟩ := h.leads hr
  obtain ⟨hparents, hterminal⟩ := Path.parents_terminal_of_members hmembers
  exact ⟨by rw [hparents, hterminal]; exact hleads, by rw [hterminal]; exact hunwraps⟩

end Registry

/-- The members of a typed path before another lead to its owner. -/
theorem Path.Typed.leads_front {p : Path U} (hp : p.Typed r) {front more : List (Descriptor U)}
    {d : Descriptor U} (h : p.members = front ++ d :: more) :
    r.Leads p.root.id front d.member.owner := by
  have hleads := hp.leads
  rcases Path.member_cases h with ⟨hparents, hterminal⟩ | ⟨more', hparents⟩
  · rwa [hparents, hterminal] at hleads
  · rw [hparents] at hleads
    obtain ⟨s, hfront, hrest⟩ := hleads.append_inv
    exact hrest.cons_inv.1 ▸ hfront

end MemberAccess
