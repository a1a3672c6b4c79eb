import MemberAccess.Proofs.Accessor.Assigner
import MemberAccess.Proofs.Path.Outcome

/-!
# The log as an account of compilation

What a compilation of a specification leaves in the log depends on how far it comes. A specification
that does not lead to a path leaves nothing, a path that is refused only the record that it was
parsed. An accessor that is made leaves its whole story, in which the links of its two chains are
told as well: those of the getter from the whole path, those of the setter from the members before
the last.

The links are stated here from the registry alone (`Registry.Linked`): each name finds a member, and
behind it come the wrappers that are crossed to the type in which the next name is looked up.

## Main definitions

* `Registry.Linked`: the links of names, from the type in which they are looked up.
* `Path.SetAs`: what the log tells of a setter.
* `Registry.Accounts`: what a compilation answers and leaves in the log, case by case.

## Main results

* `Registry.Resolves.linked`: the chain of a resolution has the links of its names.
* `Path.links_members`: the links of a path are those of its parents and the last member.
* `Registry.compile_accounted`: the log accounts for every compilation of a specification.
-/

namespace MemberAccess

variable {U : Universe} {r : Registry U} {T V : U.Ty} {p : Path U}

/-! ### The links of names -/

/-- The link that shows the reading of a member. -/
def Member.link (m : Member U) : Link := .member m.kind m.name (U.name m.value)

/-- The link that shows the opening of a wrapper. -/
def Wrapper.link (w : Wrapper U) : Link := .unwrap (U.name w.target)

/-- **The links of names:** the member that each name finds, and behind it one link for each wrapper
that is crossed to the type of the next name. -/
inductive Registry.Linked (r : Registry U) : TypeInfo U → List String → List Link → Prop
  | last {owner : TypeInfo U} {m : Member U} {name : String} (hfinds : owner.Finds name m) :
      Linked r owner [name] [m.link]
  | step {owner next : TypeInfo U} {m : Member U} {ws : List (Wrapper U)} {name second : String}
      {more : List String} {links : List Link} (hfinds : owner.Finds name m)
      (hcross : r.Crosses (r.info m.value) ws next)
      (rest : Linked r next (second :: more) links) :
      Linked r owner (name :: second :: more) (m.link :: (ws.map Wrapper.link ++ links))

/-! ### The links of a chain -/

/-- The links of a resolved member: itself, and the wrappers crossed after it. -/
def Descriptor.links (d : Descriptor U) : List Link :=
  d.member.link :: d.unwraps.map Wrapper.link

/-- A chain shows its members one after the other, whatever their positions are. -/
theorem Chain.links_ofDescriptors (ds : List (Descriptor U)) :
    (Chain.ofDescriptors ds).links U.name = ds.flatMap Descriptor.links := by
  have hsteps : ∀ place : Nat → Nat,
      (ds.mapIdx fun i d => (⟨d.member, place i, d.unwraps⟩ : Step U)).flatMap
        (Step.links U.name) = ds.flatMap Descriptor.links := by
    induction ds with
    | nil => exact fun _ => rfl
    | cons d ds ih =>
        intro place
        rw [List.mapIdx_cons, List.flatMap_cons, List.flatMap_cons, ih fun i => place (i + 1)]
        rfl
  exact hsteps id

/-- **The chain of a resolution** has the links of its names. -/
theorem Registry.Resolves.linked {owner : TypeInfo U} {names : List String}
    {ds : List (Descriptor U)} (h : r.Resolves owner names ds) :
    r.Linked owner names ((Chain.ofDescriptors ds).links U.name) := by
  rw [Chain.links_ofDescriptors]
  induction h with
  | last htable hfound howner => exact .last ⟨_, htable, hfound, howner⟩
  | step htable hfound howner hcross _ ih => exact .step ⟨_, htable, hfound, howner⟩ hcross ih

/-- **The links of a path** after whose last member no wrapper is crossed: those of the members
before it, and then the last member. -/
theorem Path.links_members (hlast : p.terminal.unwraps = []) :
    (Chain.ofDescriptors p.members).links U.name =
      (Chain.ofDescriptors p.parents).links U.name ++ [p.terminal.member.link] := by
  have hterminal : p.terminal.links = [p.terminal.member.link] := by
    rw [Descriptor.links, hlast, List.map_nil]
  rw [Chain.links_ofDescriptors, Chain.links_ofDescriptors, ← p.parents_append_terminal,
    List.flatMap_append, List.flatMap_singleton, hterminal]

/-- A path of one member has no members before it, and so no links of them. -/
theorem Path.links_parents_of_single (hsingle : p.members.length = 1) :
    (Chain.ofDescriptors p.parents).links U.name = [] := by
  obtain ⟨d, hd⟩ := List.length_eq_one_iff.1 hsingle
  have hmembers : p.members = [] ++ [d] := hd
  rw [(parents_terminal_of_members hmembers).1]
  rfl

/-! ### What is told of an accessor -/

/-- **What the log tells of a setter:** its strategy and its layout. The layout of a setter along
the path shows the links `parents` of the members before the last, and how the last is assigned. The
setter is the caller's if `own` is set. -/
inductive Path.SetAs (p : Path U) (parents : List Link) :
    (own : Bool) → SetStrategy → SetterLayout → Prop
  | explicit : SetAs p parents true .explicit .explicit
  | direct (hsingle : p.members.length = 1)
      (hpublic : p.terminal.member.accessibility = .isPublic) :
      SetAs p parents false .direct .direct
  | compound {mode : AssignMode}
      (hnot : ¬(p.members.length = 1 ∧ p.terminal.member.accessibility = .isPublic))
      (hmode : mode = .slot ↔
        p.terminal.member.kind = .field ∧ p.terminal.member.isTraversable = true) :
      SetAs p parents false .compound (.compound parents mode p.terminal.member.name)

/-- **The records of an accessor:** that the path was parsed; that its only member is not public, if
so and the setter is not the caller's; that the accessor was compiled; the links, if there is more
than one member; the setter. -/
def Path.story (p : Path U) (own : Bool) (links : List Link) (strategy : SetStrategy)
    (layout : SetterLayout) : List LogRecord :=
  .parsed p.fullName p.root.name ::
    ((if own = false ∧ p.members.length = 1 ∧ p.terminal.member.accessibility = .nonPublic then
        [.nonPublicFallback p.terminal.member.name p.root.name] else []) ++
      [.compiled p.fullName p.root.name strategy] ++
      (if 1 < p.members.length then [.getterLinks p.fullName links] else []) ++
      [.setter p.fullName layout])

/-- **What a compilation answers and leaves in the log,** case by case: it does not end, as the
wrappers on the way do not; the specification spells no names; the names do not resolve; the path is
refused; or an accessor is made. -/
inductive Registry.Accounts (r : Registry U) (T V : U.Ty) (spec : PathSpec) (own : Bool) :
    Option (Logged (Except AccessorError (Accessor U T V))) → Prop
  | endless {names : List String} (hnames : spec.memberNames = .ok names)
      (hresolve : r.resolve (r.info T) names = none) : Accounts r T V spec own none
  | unread {e : InvalidPath} (hnames : spec.memberNames = .error e) :
      Accounts r T V spec own (some ⟨.error (.invalidPath e), []⟩)
  | unresolved {names : List String} {e : InvalidPath} (hnames : spec.memberNames = .ok names)
      (hresolve : r.resolve (r.info T) names = some (.error e)) :
      Accounts r T V spec own (some ⟨.error (.invalidPath e), []⟩)
  | refused {names : List String} {p : Path U} {e : AccessorError}
      (hnames : spec.memberNames = .ok names)
      (hresolve : r.resolve (r.info T) names = some (.ok p)) :
      Accounts r T V spec own (some ⟨.error e, [.parsed p.fullName p.root.name]⟩)
  | made {names : List String} {p : Path U} {a : Accessor U T V} {parents : List Link}
      {layout : SetterLayout} (hnames : spec.memberNames = .ok names)
      (hresolve : r.resolve (r.info T) names = some (.ok p))
      (hlinks : r.Linked (r.info T) names (parents ++ [p.terminal.member.link]))
      (hparents : p.members.length = 1 → parents = [])
      (hset : p.SetAs parents own a.strategy layout) :
      Accounts r T V spec own
        (some ⟨.ok a, p.story own (parents ++ [p.terminal.member.link]) a.strategy layout⟩)

/-! ### The account -/

/-- What is made of a value leaves its log as it is. -/
theorem Logged.map_eq {α β : Type} (f : α → β) (x : Logged α) : f <$> x = ⟨f x.value, x.log⟩ :=
  congrArg (Logged.mk (f x.value)) (List.append_nil x.log)

/-- The only member of a path is written along the path exactly if it is not public and the setter
is not the caller's. -/
theorem Path.SetAs.fallback_iff {parents : List Link} {own : Bool} {strategy : SetStrategy}
    {layout : SetterLayout} (h : p.SetAs parents own strategy layout) :
    (p.members.length = 1 ∧ strategy = .compound) ↔
      (own = false ∧ p.members.length = 1 ∧ p.terminal.member.accessibility = .nonPublic) := by
  cases h with
  | explicit => simp
  | direct hsingle hpublic => simp [hpublic]
  | compound hnot hmode =>
      cases haccess : p.terminal.member.accessibility with
      | isPublic => simpa [haccess] using hnot
      | nonPublic => simp

/-- **The log of an accessor is its story:** the getter of a path of one member is direct and shows
no links, that of a longer one is the chain of all members. -/
theorem Path.parsed_records {names : List String} (h : r.Resolves p.root names p.members)
    (hroot : p.root.id = T) (hvalue : p.value = V) {parents : List Link} {own : Bool}
    {s : Setter U T V} (hset : p.SetAs parents own s.strategy (s.layout U.name)) :
    .parsed p.fullName p.root.name :: p.records (p.getter T V) s =
      p.story own ((Chain.ofDescriptors p.members).links U.name) s.strategy (s.layout U.name) := by
  have hfallback := hset.fallback_iff
  have hpos : 0 < p.members.length := List.length_pos_of_ne_nil p.nonempty
  by_cases hsingle : p.members.length = 1
  · obtain ⟨k, -, htyped⟩ := h.exists_typed? hsingle hroot hvalue
    have hnot : ¬1 < p.members.length := by omega
    simp only [records, getter, htyped, story, isSimple, decide_eq_true_eq, hfallback, if_neg hnot]
  · have htyped : p.typed? T V = none := by
      rw [typed?, isSimple, decide_eq_false hsingle, if_neg Bool.false_ne_true]
    have hmore : 1 < p.members.length := by omega
    simp only [records, getter, htyped, story, isSimple, decide_eq_true_eq, hfallback, if_pos hmore]

/-- The setter that a compiler makes for a resolved path is told as it is. -/
theorem Path.setAs_of_setter {names : List String} (h : r.Resolves p.root names p.members)
    (hroot : p.root.id = T) (hvalue : p.value = V) {c : Compiler} {s : Setter U T V}
    (hs : c.setter p T V = .ok s) :
    p.SetAs ((Chain.ofDescriptors p.parents).links U.name) false s.strategy
      (s.layout U.name) := by
  have hwritten := writtenBy_of_setter h hroot hvalue hs
  obtain ⟨-, ⟨set, -, -, rfl⟩ | ⟨-, rfl, -⟩⟩ := Compiler.setter_cases hs
  · obtain ⟨hsingle, hpublic⟩ := hwritten.direct_iff.1 rfl
    exact .direct hsingle hpublic
  · obtain ⟨hmember, hmode, -⟩ := hwritten.compound rfl
    rw [Setter.layout, hmember]
    exact .compound (hwritten.compound_iff.1 rfl) hmode

namespace Registry

/-- An accessor that is made for the path of a specification is accounted for. -/
theorem accounts_of_finish {spec : PathSpec} {names : List String} {own : Bool}
    (hnames : spec.memberNames = .ok names)
    (hresolve : r.resolve (r.info T) names = some (.ok p)) (hroot : p.root.id = T)
    (hvalue : p.value = V) {s : Setter U T V}
    (hset : p.SetAs ((Chain.ofDescriptors p.parents).links U.name) own s.strategy
      (s.layout U.name)) {made : Logged (Except AccessorError (Accessor U T V))}
    (hmade : made = .ok <$> p.finish s) :
    r.Accounts T V spec own (some ⟨made.value, .parsed p.fullName p.root.name :: made.log⟩) := by
  obtain ⟨hinfo, hresolves⟩ := resolves_of_resolve hresolve
  have hlast : p.terminal.unwraps = [] := hresolves.unwraps_getLast
  have hlinks := hresolves.linked
  rw [Path.links_members hlast] at hlinks
  rw [hmade, Logged.map_eq, Path.finish]
  simp only
  rw [Path.parsed_records (hinfo ▸ hresolves) hroot hvalue hset, Path.links_members hlast]
  exact .made hnames hresolve hlinks Path.links_parents_of_single hset

/-- A compilation of a specification is accounted for, if that of each path is to which the
specification may lead. -/
theorem accounts_withPath {spec : PathSpec} {own : Bool}
    {next : Path U → Logged (Except AccessorError (Accessor U T V))}
    (h : ∀ names p, spec.memberNames = .ok names →
      r.resolve (r.info T) names = some (.ok p) → r.Accounts T V spec own
        (some ⟨(next p).value, .parsed p.fullName p.root.name :: (next p).log⟩)) :
    r.Accounts T V spec own (r.withPath (r.info T) spec next) := by
  cases hnames : spec.memberNames with
  | error e =>
      have hparse : r.parse (r.info T) spec = some ⟨.error e, []⟩ := by
        rw [parse, hnames]
        rfl
      rw [withPath_of_error hparse]
      exact .unread hnames
  | ok names =>
      cases hresolve : r.resolve (r.info T) names with
      | none =>
          have hparse : r.parse (r.info T) spec = none := by
            rw [parse, hnames]
            simp only [hresolve, Option.map_none]
          rw [withPath, hparse, Option.map_none]
          exact .endless hnames hresolve
      | some found =>
          cases found with
          | error e =>
              have hparse : r.parse (r.info T) spec = some ⟨.error e, []⟩ := by
                rw [parse, hnames]
                simp only [hresolve, Option.map_some]
                rfl
              rw [withPath_of_error hparse]
              exact .unresolved hnames hresolve
          | ok p =>
              obtain ⟨hroot, -⟩ := resolves_of_resolve hresolve
              rw [withPath_of_ok (parse_of_resolve hnames hresolve), ← hroot]
              exact h names p hnames hresolve

/-- **The log accounts for every compilation of a specification,** under every policy and with every
setter of the caller's. If the specification spells no names or they do not resolve, nothing is
logged. If the path is refused, it is only logged that it was parsed. If an accessor is made, the
log tells its story: the path, that its only member is not public where that matters, the strategy
of the accessor, the links of the names if there is more than one, and the setter. A setter along
the path shows the links before the last member: all but the last of the getter's, and none for a
path of one member. -/
theorem compile_accounted (r : Registry U) (T V : U.Ty) (spec : PathSpec) :
    (∀ c : Compiler, r.Accounts T V spec false (c.compileSpec r T V spec)) ∧
      ∀ set : U.Val T → U.Val V → U.Val T,
        r.Accounts T V spec true (Compiler.compileSpecWithSetter r T V set spec) := by
  refine ⟨fun c => accounts_withPath fun names p hnames hresolve => ?_,
    fun set => accounts_withPath fun names p hnames hresolve => ?_⟩
  · obtain ⟨hinfo, hresolves⟩ := resolves_of_resolve hresolve
    cases hvalue : (c.compile T V p).value with
    | error e =>
        rw [Compiler.log_compile_of_error hvalue]
        exact .refused hnames hresolve
    | ok a =>
        obtain ⟨hT, hV, s, hs, -⟩ := Compiler.compile_cases hvalue
        have hmade : c.compile T V p = .ok <$> p.finish s := by
          rw [Compiler.compile, Path.checkTypes_eq_ok hT hV]
          simp only [hs]
        rw [← hvalue]
        exact accounts_of_finish hnames hresolve hT hV
          (Path.setAs_of_setter (hinfo ▸ hresolves) hT hV hs) hmade
  · cases hcheck : p.checkTypes T V with
    | error e =>
        simp only [Compiler.compileWithSetter, hcheck]
        exact .refused hnames hresolve
    | ok _ =>
        obtain ⟨hT, hV⟩ := Path.types_of_checkTypes hcheck
        have hmade : Compiler.compileWithSetter T V set p = .ok <$> p.finish (.explicit set) := by
          rw [Compiler.compileWithSetter, hcheck]
        exact accounts_of_finish hnames hresolve hT hV .explicit hmade

end Registry

end MemberAccess
