import MemberAccess.Proofs.Accessor.Refinement
import MemberAccess.Proofs.Path.Outcome

/-!
# Paths compose

Names can be resolved in two parts. If the first part resolves, the second goes on in the type that
the wrappers around the last value cross to, and the wrappers are remembered with the last member of
the first part. An error of either part is an error of the whole.

The same holds of reading. An accessor of the whole path reads the first part, opens the wrappers,
and reads the second part inside them. A value that is missing in the second part is told with its
position in the whole.

## Main definitions

* `Path.compose`: one path after another, with the wrappers between them.
* `Failure.behind`: a failure behind some more members.

## Main results

* `Registry.Resolves.append`, `Registry.Resolves.failsFirst_append`, `Registry.FailsFirst.append`:
  the parts decide the whole.
* `Path.readSteps_compose`: a walk along a composed path.
* `Registry.resolve_append_and_get`: resolving and reading in two parts.
-/

namespace MemberAccess

variable {U : Universe} {r : Registry U} {p q : Path U}

/-! ### Composed paths -/

/-- **One path after another:** the members of `p`, the last of them with the wrappers `ws` after
it, and then those of `q`. -/
def Path.compose (p : Path U) (ws : List (Wrapper U)) (q : Path U) : Path U where
  root := p.root
  members := p.parents ++ { p.terminal with unwraps := ws } :: q.members
  nonempty := List.append_ne_nil_of_right_ne_nil _ (List.cons_ne_nil _ _)

/-- A composed path ends where its second part does. -/
theorem Path.terminal_compose (p : Path U) (ws : List (Wrapper U)) (q : Path U) :
    (p.compose ws q).terminal = q.terminal := by
  simp only [terminal, compose, List.getLast_append_of_ne_nil _ (List.cons_ne_nil _ _),
    List.getLast_cons q.nonempty]

/-! ### Resolution -/

namespace Registry

/-- **Names that resolve one after the other** resolve together. -/
theorem Resolves.append {owner next : TypeInfo U} {ns ms : List String}
    {ds es : List (Descriptor U)} {ws : List (Wrapper U)} (h : r.Resolves owner ns ds)
    (hcross : r.Crosses (r.info (ds.getLast h.ne_nil).member.value) ws next)
    (hms : r.Resolves next ms es) :
    r.Resolves owner (ns ++ ms)
      (ds.dropLast ++ { ds.getLast h.ne_nil with unwraps := ws } :: es) := by
  induction h with
  | last htable hfound howner => exact .cons ⟨_, htable, hfound, howner⟩ hcross hms
  | @step owner next' table m ws' name third more' ds htable hfound howner hcross' hrest ih =>
      have hlast : (⟨m, owner, ws'⟩ :: ds).getLast (List.cons_ne_nil _ _) =
          ds.getLast hrest.ne_nil := List.getLast_cons hrest.ne_nil
      simp only [hlast] at hcross ⊢
      rw [List.dropLast_cons_of_ne_nil hrest.ne_nil]
      exact .cons ⟨_, htable, hfound, howner⟩ hcross' (ih hcross)

/-- **Names of which one fails first** fail so with any names behind them. -/
theorem FailsFirst.append {owner : TypeInfo U} {ns : List String} {e : InvalidPath}
    (h : r.FailsFirst owner ns e) (ms : List String) : r.FailsFirst owner (ns ++ ms) e := by
  cases h with
  | @refused last front back name ds _ hreach hrefuses =>
      rw [List.append_assoc, List.cons_append]
      exact .refused hreach hrefuses

/-- **Names of which one fails first** fail so behind names that resolve. -/
theorem Resolves.failsFirst_append {owner next : TypeInfo U} {ns ms : List String}
    {ds : List (Descriptor U)} {ws : List (Wrapper U)} {e : InvalidPath}
    (h : r.Resolves owner ns ds)
    (hcross : r.Crosses (r.info (ds.getLast h.ne_nil).member.value) ws next)
    (hms : r.FailsFirst next ms e) : r.FailsFirst owner (ns ++ ms) e := by
  induction h with
  | @last owner table m name htable hfound howner =>
      exact .step ⟨table, htable, hfound, howner⟩ hcross hms
  | @step owner next' table m ws' name third more ds htable hfound howner hcross' hrest ih =>
      have hlast : (⟨m, owner, ws'⟩ :: ds).getLast (List.cons_ne_nil _ _) =
          ds.getLast hrest.ne_nil := List.getLast_cons hrest.ne_nil
      rw [hlast] at hcross
      exact .step ⟨table, htable, hfound, howner⟩ hcross' (ih hcross)

end Registry

/-! ### Walks -/

/-- A failure behind `count` more members: a missing value has a position that is greater by as
much. -/
def Failure.behind (count : Nat) : Failure → Failure
  | .missingIntermediate member index => .missingIntermediate member (index + count)
  | f => f

/-- A walk whose positions begin later tells later positions. -/
theorem Chain.readSteps_behind (count start : Nat) (ds : List (Descriptor U)) (d : Dyn U) :
    readSteps (stepsFrom (start + count) ds) d =
      (readSteps (stepsFrom start ds) d).mapError (Failure.behind count) := by
  induction ds generalizing start d with
  | nil => rfl
  | cons s ds ih =>
      simp only [stepsFrom, readSteps, Descriptor.step]
      cases s.member.handles.read d with
      | none => rfl
      | some v =>
          cases hopen : Wrapper.openAll s.unwraps v with
          | none => simp only [hopen]; rfl
          | some inner =>
              have hlater := ih (start + 1) inner
              rw [Nat.add_right_comm] at hlater
              simp only [hopen, hlater]

/-- **A walk along a composed path** walks along the first path, opens the wrappers and walks along
the second. -/
theorem Path.readSteps_compose (hp : p.terminal.unwraps = []) (ws : List (Wrapper U)) (d : Dyn U) :
    Chain.readSteps (Chain.stepsFrom 0 (p.compose ws q).members) d =
      (Chain.readSteps (Chain.stepsFrom 0 p.members) d).bind fun v =>
        match Wrapper.openAll ws v with
        | none => .error (.missingIntermediate p.terminal.member.name p.parents.length)
        | some inner =>
          Chain.readSteps (Chain.stepsFrom (p.parents.length + 1) q.members) inner := by
  rw [← p.parents_append_terminal, compose, Chain.stepsFrom_append, Chain.stepsFrom_append,
    Chain.readSteps_append, Chain.readSteps_append, Nat.zero_add]
  cases Chain.readSteps (Chain.stepsFrom 0 p.parents) d with
  | error f => rfl
  | ok owner =>
      simp only [Except.bind, Chain.stepsFrom, Chain.readSteps, Descriptor.step, hp]
      cases hread : p.terminal.member.handles.read owner with
      | none => rfl
      | some v => rfl

/-! ### Reading -/

/-- **An accessor of a composed path** reads the first part, opens the wrappers, and reads the
second part inside them. An empty wrapper is told of the last member of the first part, and a value
that is missing in the second part is behind all members of the first. -/
theorem Path.get_compose (hp : p.terminal.unwraps = []) (hq : q.terminal.unwraps = [])
    {ws : List (Wrapper U)} {T V S W : U.Ty} {a : Accessor U T V} {b : Accessor U S W}
    {ab : Accessor U T W} (ha : p.CompilesTo a) (hb : q.CompilesTo b)
    (hab : (p.compose ws q).CompilesTo ab) (x : U.Val T) :
    (∀ f, a.get x = .error f → ab.get x = .error f) ∧ ∀ v, a.get x = .ok v →
      (Wrapper.openAll ws ⟨V, v⟩ = none → ab.get x =
        .error (.missingIntermediate p.terminal.member.name p.parents.length)) ∧
      ∀ y : U.Val S, Wrapper.openAll ws ⟨V, v⟩ = some ⟨S, y⟩ →
        ab.get x = (b.get y).mapError (Failure.behind (p.parents.length + 1)) := by
  have hpq : (p.compose ws q).terminal.unwraps = [] := by rw [Path.terminal_compose, hq]
  have hwalk := Path.readSteps_compose (q := q) hp ws ⟨T, x⟩
  rw [hab.readSteps_members hpq, ha.readSteps_members hp] at hwalk
  refine ⟨fun f hf => Dyn.map_mk_inj ?_, fun v hv => ⟨fun hnone => Dyn.map_mk_inj ?_,
    fun y hy => Dyn.map_mk_inj ?_⟩⟩
  · rw [hwalk, hf]
    rfl
  · rw [hwalk, hv]
    simp only [Except.map, Except.bind, hnone]
  · have hbehind := Chain.readSteps_behind (p.parents.length + 1) 0 q.members ⟨S, y⟩
    rw [Nat.zero_add, hb.readSteps_members hq] at hbehind
    rw [hwalk, hv]
    simp only [Except.map, Except.bind, hy]
    rw [hbehind]
    cases b.get y with
    | error f => rfl
    | ok w => rfl

namespace Registry

/-- **Paths compose.** Take a registry without a cycle of wrappers, and names in two parts. An error
of the first part is the error of all names. If the first part resolves to a path, let the wrappers
around its value cross to the type `inner`. Then all names resolve if the second part does in
`inner`, to the one path after the other, and otherwise the error of the second part is theirs.
Accessors of the three paths, with any setters, read accordingly: the whole reads the first part,
opens the wrappers, and reads the second part inside them, where positions of missing values count
from the first part on. The value inside the wrappers is of the type `inner` if the registry is well
typed. -/
theorem resolve_append_and_get (hr : r.Acyclic) (htables : ∀ t, (r.info t).Tabulated)
    {root : TypeInfo U} (hroot : root.Tabulated) {ns ms : List String} (hns : ns ≠ [])
    (hms : ms ≠ []) :
    (∀ e, r.resolve root ns = some (.error e) → r.resolve root (ns ++ ms) = some (.error e)) ∧
      ∀ p, r.resolve root ns = some (.ok p) → ∃ ws inner,
        r.Crosses (r.info p.value) ws inner ∧
        ((∃ q, r.resolve inner ms = some (.ok q)) ∨ ∃ e, r.resolve inner ms = some (.error e)) ∧
        (∀ e, r.resolve inner ms = some (.error e) →
          r.resolve root (ns ++ ms) = some (.error e)) ∧
        ∀ q, r.resolve inner ms = some (.ok q) →
          r.resolve root (ns ++ ms) = some (.ok (p.compose ws q)) ∧
          ∀ {T V W : U.Ty} {a : Accessor U T V} {b : Accessor U inner.id W}
            {ab : Accessor U T W}, p.CompilesTo a → q.CompilesTo b →
              (p.compose ws q).CompilesTo ab → ∀ x : U.Val T,
                (∀ f, a.get x = .error f → ab.get x = .error f) ∧ ∀ v, a.get x = .ok v →
                  (Wrapper.openAll ws ⟨V, v⟩ = none → ab.get x =
                    .error (.missingIntermediate (ns.getLast hns) (ns.length - 1))) ∧
                  (r.WellTyped → ∀ d, Wrapper.openAll ws ⟨V, v⟩ = some d → d.ty = inner.id) ∧
                  ∀ y : U.Val inner.id, Wrapper.openAll ws ⟨V, v⟩ = some ⟨inner.id, y⟩ →
                    ab.get x = (b.get y).mapError (Failure.behind ns.length) := by
  refine ⟨fun e he => ?_, fun p hp => ?_⟩
  · rcases resolve_cases hr root hns with ⟨p, hp, -, -⟩ | ⟨e', he', hfails⟩
    · cases hp.symm.trans he
    · cases he'.symm.trans he
      exact resolve_eq_error_of_resolveFrom (hfails.append ms).resolveFrom_eq
  · obtain ⟨rfl, hresolves⟩ := resolves_of_resolve hp
    obtain ⟨ws, inner, hcross⟩ := exists_cross hr p.value
    have hcross := crosses_of_cross hcross
    refine ⟨ws, inner, hcross, ?_, fun e he => ?_, fun q hq => ⟨?_, ?_⟩⟩
    · rcases resolve_cases hr inner hms with ⟨q, hq, -, -⟩ | ⟨e, he, -⟩
      · exact .inl ⟨q, hq⟩
      · exact .inr ⟨e, he⟩
    · rcases resolve_cases hr inner hms with ⟨q, hq, -, -⟩ | ⟨e', he', hfails⟩
      · cases hq.symm.trans he
      · cases he'.symm.trans he
        have hall := hresolves.failsFirst_append hcross hfails
        exact resolve_eq_error_of_resolveFrom hall.resolveFrom_eq
    · obtain ⟨-, hinner⟩ := resolves_of_resolve hq
      exact Resolves.resolve_eq rfl (hresolves.append hcross hinner)
    · intro T V W a b ab ha hb hab x
      obtain ⟨-, hinner⟩ := resolves_of_resolve hq
      obtain ⟨herror, hok⟩ :=
        Path.get_compose hresolves.unwraps_getLast hinner.unwraps_getLast ha hb hab x
      have hnames : p.members.map (·.member.name) = ns := hresolves.names_eq htables hroot
      have hlast : p.terminal.member.name = ns.getLast hns := by
        simp only [← hnames, List.getLast_map]
        rfl
      have hlength : p.parents.length + 1 = ns.length := by
        rw [← hnames, List.length_map, ← p.parents_append_terminal, List.length_append]
        rfl
      have hindex : ns.length - 1 = p.parents.length := by omega
      rw [hindex, ← hlast, ← hlength]
      refine ⟨herror, fun v hv => ?_⟩
      obtain ⟨hmissing, hinside⟩ := hok v hv
      refine ⟨hmissing, fun hwell d hd => ?_, hinside⟩
      obtain ⟨-, hvalue, -⟩ := ha.getter_eq
      have hinfo : r.info d.ty = inner := Registry.Crosses.openAll hwell (hvalue ▸ hcross) hd
      rw [← hinfo, hwell.id_info]

end Registry

/-- In the objects that may be linked to a next one, the count of the next is read by reading the
next, opening the option around it, and reading its count. -/
theorem Declarations.linked_paths_compose :
    ((linked.registry []).Acyclic ∧ (∀ t, ((linked.registry []).info t).Tabulated) ∧
        ((linked.registry []).info (Ty.declared 0)).Tabulated ∧ ["next"] ≠ [] ∧ ["count"] ≠ []) ∧
      ∃ p q ws, (linked.registry []).resolve ((linked.registry []).info (Ty.declared 0)) ["next"] =
          some (.ok p) ∧
        (linked.registry []).resolve ((linked.registry []).info (Ty.declared 0)) ["count"] =
          some (.ok q) ∧
        (linked.registry []).resolve ((linked.registry []).info (Ty.declared 0))
          ["next", "count"] = some (.ok (p.compose ws q)) ∧
        ∃ (a : Accessor linked.universe (Ty.declared 0) (Ty.option (Ty.declared 0)))
          (b : Accessor linked.universe (Ty.declared 0) (Ty.prim .i32))
          (ab : Accessor linked.universe (Ty.declared 0) (Ty.prim .i32)),
          p.CompilesTo a ∧ q.CompilesTo b ∧ (p.compose ws q).CompilesTo ab ∧ ∀ x v,
            a.get x = .ok v →
              (Wrapper.openAll ws ⟨Ty.option (Ty.declared 0), v⟩ = none →
                ab.get x = .error (.missingIntermediate "next" 0)) ∧
              (∀ d, Wrapper.openAll ws ⟨Ty.option (Ty.declared 0), v⟩ = some d →
                d.ty = Ty.declared 0) ∧
              ∀ y : Obj linked (Ty.declared 0),
                Wrapper.openAll ws ⟨Ty.option (Ty.declared 0), v⟩ = some ⟨Ty.declared 0, y⟩ →
                  ab.get x = (b.get y).mapError (Failure.behind 1) := by
  have hr := linked.acyclic_registry linked_isWrapper []
  have hwell := linked.wellTyped_registry []
  have htables := linked.tabulated_registry []
  have hnext : ["next"] ≠ [] := List.cons_ne_nil _ _
  have hcount : ["count"] ≠ [] := List.cons_ne_nil _ _
  have hid := hwell.id_info (Ty.declared 0)
  have hp : ((linked.registry []).resolve ((linked.registry []).info (Ty.declared 0))
      ["next"]).any (fun found => found.toOption.any fun p =>
        decide (p.value = Ty.option (Ty.declared 0))) = true := by decide +kernel
  have hq : ((linked.registry []).resolve ((linked.registry []).info (Ty.declared 0))
      ["count"]).any (fun found => found.toOption.any fun p =>
        decide (p.value = Ty.prim .i32)) = true := by decide +kernel
  have hcross : ((linked.registry []).cross
      ((linked.registry []).info (Ty.option (Ty.declared 0)))).any
        (fun found => decide (found.2.id = Ty.declared 0)) = true := by decide +kernel
  obtain ⟨p, hp, hpvalue⟩ := Registry.exists_path_of_any hp
  obtain ⟨q, hq, hqvalue⟩ := Registry.exists_path_of_any hq
  have hpvalue := of_decide_eq_true hpvalue
  have hqvalue := of_decide_eq_true hqvalue
  obtain ⟨-, hcompose⟩ := Registry.resolve_append_and_get hr htables (htables (Ty.declared 0))
    hnext hcount
  obtain ⟨ws, inner, hinner, -, -, hall⟩ := hcompose p hp
  -- The option around the next object is crossed to the objects themselves.
  obtain ⟨s, rfl⟩ := hinner.exists_info
  obtain ⟨⟨ws', target⟩, hfound, htarget⟩ := (Option.any_eq_true _ _).1 hcross
  have hunique := hinner.unique (hpvalue ▸ Registry.crosses_of_cross hfound)
  have hs : s = Ty.declared 0 := by
    rw [← hwell.id_info s, hunique.2]
    exact of_decide_eq_true htarget
  subst hs
  obtain ⟨hresolves, hget⟩ := hall q hq
  have hproot : p.root.id = Ty.declared 0 := by rw [(Registry.resolves_of_resolve hp).1, hid]
  have hqroot : q.root.id = Ty.declared 0 := by rw [(Registry.resolves_of_resolve hq).1, hid]
  have hvalue : (p.compose ws q).value = Ty.prim .i32 := by
    rw [← hqvalue, Path.value, Path.value, Path.terminal_compose]
  obtain ⟨a, ha⟩ := p.exists_compilesTo hproot hpvalue
  obtain ⟨b, hb⟩ := q.exists_compilesTo hqroot hqvalue
  obtain ⟨ab, hab⟩ := (p.compose ws q).exists_compilesTo hproot hvalue
  refine ⟨⟨hr, htables, htables _, hnext, hcount⟩, p, q, ws, hp, hq, hresolves, a, b, ab, ha, hb,
    hab, fun x v hv => ?_⟩
  obtain ⟨-, hread⟩ := hget ha hb hab x
  obtain ⟨hmissing, htyped, hinside⟩ := hread v hv
  exact ⟨hmissing, htyped hwell, hinside⟩

end MemberAccess
