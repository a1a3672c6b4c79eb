import MemberAccess.Proofs.Path.Outcome

/-!
# When parsing ends

Names are searched turn by turn: a turn finds the next name in the type at hand, or crosses one
wrapper after a member. Crossing has no bound of its own, so the search for names that lead into a
cycle of wrappers goes on for ever. `Registry.resolveFrom`, which keeps account of the types that it
has seen, gives nothing there; everywhere else it tells how the search ends. So parsing ends for all
specifications exactly in the registries without a cycle of wrappers.

## Main definitions

* `Search`: the state of a search, `Search.turn` one turn of it, `Search.run` a number of turns.
* `Registry.parseWithin`: the path of a specification, if its search ends within a number of turns.
* `Registry.turnBound`: a number of turns within which a search ends that ends at all.

## Main results

* `Search.exists_run_of_resolveFrom`, `Search.run_of_resolveFrom_eq_none`: how a search ends.
* `Registry.parse_ends_iff_acyclic`: parsing always ends exactly if no wrappers form a cycle.
-/

namespace MemberAccess

variable {U : Universe} {r : Registry U}

open Relation

/-! ### Searching turn by turn -/

/-- **A search for names:** the type at hand, the members found so far, the latest first, and the
names that are left. -/
structure Search (U : Universe) where
  owner : TypeInfo U
  found : List (Descriptor U)
  names : List String

namespace Search

/-- **One turn of a search.** It ends with an outcome, or goes on: into the wrapper at hand if a
member was found before, and otherwise from the next member that is found. -/
def turn (r : Registry U) (s : Search U) :
    Except InvalidPath (List (Descriptor U)) ⊕ Search U :=
  match s.names with
  | [] => .inl (.ok s.found.reverse)
  | name :: more =>
    match s.owner.shape, s.found with
    | .composite table, _ =>
      match table.find? name with
      | none => .inl (.error (.unknownMember s.owner.name name))
      | some m =>
        if m.owner ≠ s.owner.id then .inl (.error (.memberOwnerMismatch s.owner.name m.name))
        else .inr ⟨r.info m.value, ⟨m, s.owner, []⟩ :: s.found, more⟩
    | .wrapper w, d :: ds =>
      .inr ⟨r.info w.target, { d with unwraps := d.unwraps ++ [w] } :: ds, name :: more⟩
    | _, _ => .inl (.error (.noMembers s.owner.name name))

/-- **A search for a number of turns.** There is an outcome if it ends within them. -/
def run (r : Registry U) : Nat → Search U → Option (Except InvalidPath (List (Descriptor U)))
  | 0, _ => none
  | n + 1, s =>
    match s.turn r with
    | .inl outcome => some outcome
    | .inr later => run r n later

end Search

namespace Registry

/-- What is made of the outcome of a search: the path of the members found, which is logged. -/
def report (root : TypeInfo U) :
    Except InvalidPath (List (Descriptor U)) → Logged (Except InvalidPath (Path U))
  | .error e => pure (.error e)
  | .ok members =>
    if h : members = [] then pure (.error .empty)
    else do
      let path : Path U := ⟨root, members, h⟩
      Logged.emit (.parsed path.fullName root.name)
      pure (.ok path)

/-- **The path of a specification** in the type `root`, if the search for its names ends within a
number of turns. -/
def parseWithin (r : Registry U) (turns : Nat) (root : TypeInfo U) (spec : PathSpec) :
    Option (Logged (Except InvalidPath (Path U))) :=
  match spec.memberNames with
  | .error e => some (pure (.error e))
  | .ok names => (Search.run r turns ⟨root, [], names⟩).map (report root)

end Registry

/-! ### One turn -/

/-- A type that lists members is a composite. -/
theorem TypeInfo.shape_of_composite? {i : TypeInfo U} {table : MemberTable (Member U)}
    (h : i.composite? = some table) : i.shape = .composite table := by
  obtain ⟨t, shape⟩ := i
  cases shape with
  | composite table' => exact congrArg Shape.composite (Option.some.inj h)
  | leaf => cases h
  | wrapper w => cases h

/-- A type around another is a wrapper. -/
theorem TypeInfo.shape_of_wrapper? {i : TypeInfo U} {w : Wrapper U} (h : i.wrapper? = some w) :
    i.shape = .wrapper w := by
  obtain ⟨t, shape⟩ := i
  cases shape with
  | wrapper w' => exact congrArg Shape.wrapper (Option.some.inj h)
  | leaf => cases h
  | composite table => cases h

namespace Search

variable {owner i j : TypeInfo U} {front : List (Descriptor U)} {d : Descriptor U} {name : String}
  {more : List String} {ws : List (Wrapper U)}

/-- Without a name left, a search ends with what was found. -/
theorem run_nil (n : Nat) : run r (n + 1) ⟨owner, front, []⟩ = some (.ok front.reverse) := rfl

/-- A name that the type at hand finds takes one turn. -/
theorem run_of_finds {m : Member U} (hfinds : owner.Finds name m) (n : Nat) :
    run r (n + 1) ⟨owner, front, name :: more⟩ =
      run r n ⟨r.info m.value, ⟨m, owner, []⟩ :: front, more⟩ := by
  obtain ⟨table, htable, hfound, howner⟩ := hfinds
  have hshape := TypeInfo.shape_of_composite? htable
  simp only [run, turn, hshape, hfound, howner, ne_eq, not_true_eq_false, if_false]

/-- A name that the type at hand refuses ends the search, unless the type is a wrapper after a
member. -/
theorem run_of_refuses {e : InvalidPath} (hrefuses : owner.Refuses name e)
    (hstart : front = [] ∨ owner.wrapper? = none) (n : Nat) :
    run r (n + 1) ⟨owner, front, name :: more⟩ = some (.error e) := by
  cases hrefuses with
  | noMembers h =>
      obtain ⟨t, shape⟩ := owner
      cases shape with
      | leaf => rfl
      | composite table => cases h
      | wrapper w =>
          obtain rfl : front = [] := hstart.resolve_right (by simp [TypeInfo.wrapper?])
          rfl
  | unknownMember htable h =>
      simp only [run, turn, TypeInfo.shape_of_composite? htable, h]
  | foreignMember htable hfound h =>
      simp only [run, turn, TypeInfo.shape_of_composite? htable, hfound, ne_eq, h,
        not_false_eq_true, if_true]

/-- A wrapper after a member takes one turn. -/
theorem run_of_wrapper {w : Wrapper U} (hw : i.wrapper? = some w) (n : Nat) :
    run r (n + 1) ⟨i, d :: front, name :: more⟩ =
      run r n ⟨r.info w.target, { d with unwraps := d.unwraps ++ [w] } :: front, name :: more⟩ := by
  simp only [run, turn, TypeInfo.shape_of_wrapper? hw]

/-! ### Crossing wrappers -/

/-- Crossing takes a turn for each wrapper. -/
theorem run_of_crosses (h : r.Crosses i ws j) (n : Nat) :
    run r (n + ws.length) ⟨i, d :: front, name :: more⟩ =
      run r n ⟨j, { d with unwraps := d.unwraps ++ ws } :: front, name :: more⟩ := by
  induction h generalizing d with
  | stop _ => rw [List.append_nil, List.length_nil, Nat.add_zero]
  | enter hw _ ih =>
      rw [List.length_cons, ← Nat.add_assoc, run_of_wrapper hw, ih]
      simp only [List.append_assoc, List.singleton_append]

/-- **A search that cannot cross goes on for ever.** The type at hand is a wrapper, and what is
inside cannot be crossed either. -/
theorem run_eq_none_of_not_crosses (h : ¬∃ ws j, r.Crosses i ws j) (n : Nat) :
    run r n ⟨i, d :: front, name :: more⟩ = none := by
  induction n generalizing i d with
  | zero => rfl
  | succ n ih =>
      cases hw : i.wrapper? with
      | none => exact absurd ⟨[], i, .stop hw⟩ h
      | some w =>
          rw [run_of_wrapper hw]
          exact ih fun ⟨ws, j, hinner⟩ => h ⟨w :: ws, j, .enter hw hinner⟩

/-! ### Turns to spare -/

/-- An outcome does not change with more turns. -/
theorem run_mono {s : Search U} {n k : Nat} {outcome : Except InvalidPath (List (Descriptor U))}
    (h : run r n s = some outcome) (hle : n ≤ k) : run r k s = some outcome := by
  induction n generalizing s k with
  | zero => cases h
  | succ n ih =>
      obtain ⟨k, rfl⟩ := Nat.exists_eq_add_one_of_ne_zero (Nat.ne_of_gt (Nat.lt_of_lt_of_le
        (Nat.succ_pos n) hle))
      rw [run] at h ⊢
      cases hturn : s.turn r with
      | inl out => simpa only [hturn] using h
      | inr later =>
          simp only [hturn] at h ⊢
          exact ih h (Nat.le_of_succ_le_succ hle)

/-- A search that has not ended has not ended after fewer turns. -/
theorem run_eq_none_of_le {s : Search U} {n k : Nat} (h : run r k s = none) (hle : n ≤ k) :
    run r n s = none := by
  cases hrun : run r n s with
  | none => rfl
  | some outcome => cases (run_mono hrun hle).symm.trans h

end Search

/-! ### How a search ends -/

namespace Registry

/-- A name that the type finds is resolved to its member; further names are looked up inside the
wrappers around its value. -/
theorem resolveFrom_of_finds {owner : TypeInfo U} {name : String} {m : Member U}
    (h : owner.Finds name m) {more : List String} (hmore : more ≠ []) :
    r.resolveFrom owner (name :: more) =
      (r.cross (r.info m.value)).bind fun crossed =>
        (r.resolveFrom crossed.2 more).map fun later => later.map (⟨m, owner, crossed.1⟩ :: ·) := by
  obtain ⟨table, htable, hfound, howner⟩ := h
  rw [resolveFrom]
  simp only [htable, hfound, howner, ne_eq, not_true_eq_false, if_false, hmore]
  cases r.cross (r.info m.value) <;> rfl

/-- The last name that the type finds is resolved to its member. -/
theorem resolveFrom_of_finds_last {owner : TypeInfo U} {name : String} {m : Member U}
    (h : owner.Finds name m) : r.resolveFrom owner [name] = some (.ok [⟨m, owner, []⟩]) := by
  obtain ⟨table, htable, hfound, howner⟩ := h
  rw [resolveFrom]
  simp only [htable, hfound, howner, ne_eq, not_true_eq_false, if_false, if_true]

/-- **A number of turns** that suffices for names: one for each name and for each wrapper that may
be around the value of its member, and one to end. -/
def turnBound (r : Registry U) (names : List String) : Nat :=
  names.length * (r.types.length + 2) + 1

end Registry

namespace Search

variable {owner : TypeInfo U} {front : List (Descriptor U)} {names : List String}

/-- The type at the end of a crossing is no wrapper. -/
theorem wrapper?_of_crosses {i j : TypeInfo U} {ws : List (Wrapper U)} (h : r.Crosses i ws j) :
    j.wrapper? = none := by
  induction h with
  | stop h => exact h
  | enter _ _ ih => exact ih

/-- **What resolution answers, a search ends with.** The search starts at the root, or inside the
wrappers after a member. -/
theorem run_of_resolveFrom (hstart : front = [] ∨ owner.wrapper? = none)
    {answer : Except InvalidPath (List (Descriptor U))}
    (h : r.resolveFrom owner names = some answer) :
    run r (r.turnBound names) ⟨owner, front, names⟩ =
      some (answer.map (front.reverse ++ ·)) := by
  induction names generalizing owner front answer with
  | nil =>
      obtain rfl : .ok [] = answer := Option.some.inj h
      rw [Registry.turnBound, run_nil, Except.map, List.append_nil]
  | cons name more ih =>
      rcases owner.finds_or_refuses name with ⟨m, hfinds⟩ | ⟨e, hrefuses⟩
      · cases more with
        | nil =>
            rw [Registry.resolveFrom_of_finds_last hfinds] at h
            obtain rfl := Option.some.inj h
            have hend : run r 2 ⟨owner, front, [name]⟩ =
                some (.ok (front.reverse ++ [⟨m, owner, []⟩])) := by
              rw [run_of_finds hfinds, run_nil, List.reverse_cons]
            exact run_mono hend (by simp only [Registry.turnBound, List.length_singleton]; omega)
        | cons second more =>
            rw [Registry.resolveFrom_of_finds hfinds (List.cons_ne_nil _ _)] at h
            obtain ⟨⟨ws, next⟩, hcross, h⟩ := Option.bind_eq_some_iff.1 h
            obtain ⟨later, hlater, rfl⟩ := Option.map_eq_some_iff.1 h
            have hlength : ws.length ≤ r.types.length + 1 := Registry.length_le_of_crossFrom hcross
            have hcross := Registry.crosses_of_cross hcross
            have hnext : next.wrapper? = none := wrapper?_of_crosses hcross
            have hend : run r (r.turnBound (second :: more) + ws.length + 1)
                ⟨owner, front, name :: second :: more⟩ =
                  some ((later.map (⟨m, owner, ws⟩ :: ·)).map (front.reverse ++ ·)) := by
              rw [run_of_finds hfinds, run_of_crosses hcross, ih (.inr hnext) hlater]
              cases later with
              | error e => rfl
              | ok ds => simp only [Except.map, List.reverse_cons, List.append_assoc,
                  List.singleton_append, List.nil_append]
            refine run_mono hend ?_
            simp only [Registry.turnBound, List.length_cons, Nat.add_mul, Nat.one_mul]
            omega
      · rw [Registry.resolveFrom_of_refuses hrefuses] at h
        obtain rfl := Option.some.inj h
        exact run_of_refuses hrefuses hstart _

/-- **Where resolution gives nothing, a search goes on for ever.** -/
theorem run_of_resolveFrom_eq_none (h : r.resolveFrom owner names = none) (n : Nat) :
    run r n ⟨owner, front, names⟩ = none := by
  induction names generalizing owner front n with
  | nil => cases h
  | cons name more ih =>
      rcases owner.finds_or_refuses name with ⟨m, hfinds⟩ | ⟨e, hrefuses⟩
      · cases more with
        | nil => cases (Registry.resolveFrom_of_finds_last hfinds).symm.trans h
        | cons second more =>
            rw [Registry.resolveFrom_of_finds hfinds (List.cons_ne_nil _ _)] at h
            cases n with
            | zero => rfl
            | succ n =>
                rw [run_of_finds hfinds]
                cases hcross : r.cross (r.info m.value) with
                | none =>
                    refine run_eq_none_of_not_crosses (fun ⟨ws, j, hcrosses⟩ => ?_) n
                    cases hcross.symm.trans hcrosses.cross_eq
                | some crossed =>
                    obtain ⟨ws, next⟩ := crossed
                    rw [hcross, Option.bind_some, Option.map_eq_none_iff] at h
                    have hlater : run r (n + ws.length)
                        ⟨r.info m.value, ⟨m, owner, []⟩ :: front, second :: more⟩ = none := by
                      rw [run_of_crosses (Registry.crosses_of_cross hcross)]
                      exact ih h n
                    exact run_eq_none_of_le hlater (Nat.le_add_right n ws.length)
      · cases (Registry.resolveFrom_of_refuses hrefuses more).symm.trans h

end Search

/-! ### When parsing ends -/

namespace Registry

/-- Parsing resolves the names of the specification and reports the outcome. -/
theorem parse_eq_report {root : TypeInfo U} {spec : PathSpec} {names : List String}
    (hnames : spec.memberNames = .ok names) :
    r.parse root spec = (r.resolveFrom root names).map (report root) := by
  rw [parse, hnames]
  simp only [resolve, Option.map_map]
  congr 1
  funext found
  cases found with
  | error e => rfl
  | ok ds => cases ds <;> rfl

/-- **A number of turns** that suffices for a specification. -/
def parseBound (r : Registry U) (spec : PathSpec) : Nat :=
  match spec.memberNames with
  | .error _ => 0
  | .ok names => r.turnBound names

/-- Parsing answers what the search within enough turns answers. -/
theorem parseWithin_parseBound (r : Registry U) (root : TypeInfo U) (spec : PathSpec) :
    r.parseWithin (r.parseBound spec) root spec = r.parse root spec := by
  cases hnames : spec.memberNames with
  | error e => rw [parse, parseWithin, hnames]
  | ok names =>
      rw [parse_eq_report hnames, parseWithin, parseBound, hnames]
      dsimp only
      cases hanswer : r.resolveFrom root names with
      | none => rw [Search.run_of_resolveFrom_eq_none hanswer]
      | some answer =>
          rw [Search.run_of_resolveFrom (.inl rfl) hanswer]
          cases answer <;> rfl

/-- An answer does not change with more turns. -/
theorem parseWithin_mono {turns more : Nat} {root : TypeInfo U} {spec : PathSpec}
    {answer : Logged (Except InvalidPath (Path U))}
    (h : r.parseWithin turns root spec = some answer) (hle : turns ≤ more) :
    r.parseWithin more root spec = some answer := by
  rw [parseWithin] at h ⊢
  cases hnames : spec.memberNames with
  | error e => simpa only [hnames] using h
  | ok names =>
      simp only [hnames] at h ⊢
      obtain ⟨outcome, hrun, rfl⟩ := Option.map_eq_some_iff.1 h
      rw [Search.run_mono hrun hle, Option.map_some]

/-- **A search that ends answers as parsing does.** -/
theorem exists_parseWithin_iff {root : TypeInfo U} {spec : PathSpec}
    {answer : Logged (Except InvalidPath (Path U))} :
    (∃ turns, r.parseWithin turns root spec = some answer) ↔ r.parse root spec = some answer := by
  constructor
  · rintro ⟨turns, h⟩
    cases hnames : spec.memberNames with
    | error e =>
        rw [parseWithin, hnames] at h
        rw [parse, hnames]
        exact h
    | ok names =>
        cases hanswer : r.resolveFrom root names with
        | none =>
            rw [parseWithin, hnames] at h
            simp only [Search.run_of_resolveFrom_eq_none hanswer, Option.map_none,
              reduceCtorEq] at h
        | some outcome =>
            rw [← parseWithin_parseBound]
            rcases Nat.le_total turns (r.parseBound spec) with hle | hle
            · exact parseWithin_mono h hle
            · have hparse : r.parseWithin (r.parseBound spec) root spec =
                  some (report root outcome) := by
                rw [parseWithin_parseBound, parse_eq_report hnames, hanswer, Option.map_some]
              rw [hparse, ← parseWithin_mono hparse hle, h]
  · intro h
    exact ⟨r.parseBound spec, (r.parseWithin_parseBound root spec).trans h⟩

/-- Without a cycle of wrappers, names are always answered. -/
theorem exists_resolveFrom (hr : r.Acyclic) (owner : TypeInfo U) (names : List String) :
    ∃ answer, r.resolveFrom owner names = some answer := by
  by_cases hnames : names = []
  · exact ⟨.ok [], by rw [hnames, resolveFrom]⟩
  · rcases resolves_or_failsFirst hr owner hnames with ⟨ds, hds⟩ | ⟨e, he⟩
    · exact ⟨_, hds.resolveFrom_eq⟩
    · exact ⟨_, he.resolveFrom_eq⟩

/-- Without a cycle of wrappers, parsing always answers. -/
theorem exists_parse (hr : r.Acyclic) (root : TypeInfo U) (spec : PathSpec) :
    ∃ answer, r.parse root spec = some answer := by
  cases hnames : spec.memberNames with
  | error e => exact ⟨_, by rw [parse, hnames]⟩
  | ok names =>
      obtain ⟨answer, hanswer⟩ := exists_resolveFrom hr root names
      exact ⟨_, by rw [parse_eq_report hnames, hanswer, Option.map_some]⟩

/-- Values that are parts of themselves, as a member. -/
def selfMember (t : U.Ty) (name : String) : Member U :=
  ⟨name, .field, .isPublic, ⟨t, t, ⟨id, none, none⟩⟩⟩

/-- A member of a member of a type inside itself is searched for without end. -/
theorem parse_eq_none_of_inside {t : U.Ty} (hinside : TransGen r.Wraps t t) :
    r.parse (.composite t [selfMember t "part"])
      (.built ⟨"x", .member (.member (.parameter "x") "part") "part"⟩) = none := by
  have hfinds : (TypeInfo.composite t [selfMember t "part"]).Finds "part" (selfMember t "part") :=
    ⟨_, rfl, rfl, rfl⟩
  have hcross : r.cross (r.info t) = none := by
    cases hfound : r.cross (r.info t) with
    | none => rfl
    | some crossed => exact absurd hinside (crosses_of_cross hfound).not_inside
  have hnames : PathSpec.memberNames
      (.built ⟨"x", .member (.member (.parameter "x") "part") "part"⟩) = .ok ["part", "part"] := rfl
  rw [parse_eq_report hnames, resolveFrom_of_finds hfinds (List.cons_ne_nil _ _)]
  have hvalue : r.cross (r.info (selfMember t "part").value) = none := hcross
  rw [hvalue, Option.bind_none, Option.map_none]

/-- **Parsing always ends exactly if no wrappers form a cycle.** A search that ends answers what
parsing answers, and it does so within the bound of the specification, if it ends at all. It ends
for every root and every specification exactly if no type is inside itself. -/
theorem parse_ends_iff_acyclic (r : Registry U) :
    (∀ root spec answer,
        (∃ turns, r.parseWithin turns root spec = some answer) ↔ r.parse root spec = some answer) ∧
      (∀ root spec, r.parseWithin (r.parseBound spec) root spec = r.parse root spec) ∧
      ((∀ root spec, ∃ turns answer, r.parseWithin turns root spec = some answer) ↔
        r.Acyclic) := by
  refine ⟨fun root spec answer => exists_parseWithin_iff, r.parseWithin_parseBound,
    fun hends t hinside => ?_, fun hr root spec => ?_⟩
  · obtain ⟨turns, answer, hanswer⟩ := hends _ _
    have hparse := exists_parseWithin_iff.1 ⟨turns, hanswer⟩
    cases (parse_eq_none_of_inside hinside).symm.trans hparse
  · obtain ⟨answer, hanswer⟩ := exists_parse hr root spec
    exact ⟨r.parseBound spec, answer, (r.parseWithin_parseBound root spec).trans hanswer⟩

end Registry

/-! ### A wrapper around itself -/

namespace Declarations

/-- Objects with a part that is a wrapper around itself. -/
def selfWrapped : Declarations :=
  ⟨"Row", [⟨[.declared 1], .composite [⟨"a", .field, .isPublic, 0, 0, true, true⟩]⟩,
    ⟨[.declared 1], .wrapper true⟩]⟩

/-- **Parsing does not end where a wrapper is around itself.** The member `b` of the wrapped part is
searched for in one wrapper after the other, however many turns are made. -/
theorem selfWrapped_parse_never_ends :
    ¬∃ turns answer, (selfWrapped.registry []).parseWithin turns
      ((selfWrapped.registry []).info (Ty.declared 0)) (.text "|x| x.a.b") = some answer := by
  rintro ⟨turns, answer, h⟩
  have hnone : ((selfWrapped.registry []).parse ((selfWrapped.registry []).info (Ty.declared 0))
      (.text "|x| x.a.b")).isNone = true := by decide +kernel
  rw [Registry.exists_parseWithin_iff.1 ⟨turns, h⟩] at hnone
  cases hnone

end Declarations

end MemberAccess
