import MemberAccess.Proofs.Accessor.Borrow
import MemberAccess.Proofs.Accessor.Refinement

/-!
# What an accessor is focused on

A compiled accessor reads and writes one component of one owner. It gets to the owner by a lawful
access, the walk along the members before the last. Where the access fails, reading and writing
fail in the same way; where it arrives, the component of the owner is read, and the owner is
replaced by one in which that component is stored, but for the books of a setter. All ways to read
and to write (by a typed handle or a chain, through a borrow or by a setter) come to this, and what
follows for accessors follows from it.

## Main definitions

* `Path.ownerAccess`: the walk to the owner of the last member.
* `Accessor.Focuses`: an accessor reads and writes one component behind an access.

## Main results

* `Path.exists_focuses`: a compiled accessor is focused on the component of the last member.
-/

namespace MemberAccess

variable {U : Universe} {r : Registry U} {p : Path U}

/-- The access to the owner of the last member of a path. -/
def Path.ownerAccess (p : Path U) : Access U := .walk (Chain.stepsFrom 0 p.parents)

/-- The owner of the last member is reached by reading the steps in front of it. -/
theorem Path.ownerAccess_read (p : Path U) (d : Dyn U) :
    p.ownerAccess.read d = Chain.readSteps (Chain.stepsFrom 0 p.parents) d :=
  Access.walk_read _ d

/-- The owner of the last member is borrowed by the steps in front of it. -/
theorem Path.ownerAccess_borrow (p : Path U) (d : Dyn U) :
    p.ownerAccess.borrow d = Chain.readMutSteps (Chain.stepsFrom 0 p.parents) d :=
  Access.walk_borrow _ d

/-- **An accessor is focused on a component** `c` of the values of `O`, to which `w` is an access:
it reads the component, and writes by `store`, which replaces the component. -/
structure Accessor.Focuses {T V O : U.Ty} (r : Registry U) (a : Accessor U T V) (w : Access U)
    (c : Component U O V) (store : U.Val O → U.Val V → U.Val O) : Prop where
  lawful : w.Lawful T
  arrives {x : U.Val T} {s : Slot U (U.Val T)} (hs : w.borrow ⟨T, x⟩ = .ok s) : s.ty = O
  missing {x after : U.Val T} {f : Failure} (hf : w.borrow ⟨T, x⟩ = .error (f, after)) :
    f.IsMissing
  get_ok {x : U.Val T} {o : U.Val O} {fill : U.Val O → U.Val T}
    (hs : w.borrow ⟨T, x⟩ = .ok ⟨O, o, fill⟩) : a.get x = .ok (c.read o)
  get_error {x after : U.Val T} {f : Failure} (hf : w.borrow ⟨T, x⟩ = .error (f, after)) :
    a.get x = .error f
  set_ok {x : U.Val T} {o : U.Val O} {fill : U.Val O → U.Val T}
    (hs : w.borrow ⟨T, x⟩ = .ok ⟨O, o, fill⟩) (v : U.Val V) :
    a.set x v = (.ok (), fill (store o v))
  set_error {x after : U.Val T} {f : Failure} (hf : w.borrow ⟨T, x⟩ = .error (f, after))
    (v : U.Val V) : a.set x v = (.error f, after)
  stores (o : U.Val O) (v : U.Val V) : r.SameMembers O (c.replace o v) (store o v)

/-- On each root, the access of a focused accessor arrives at an owner, or fails. -/
theorem Accessor.Focuses.outcome {T V O : U.Ty} {a : Accessor U T V} {w : Access U}
    {c : Component U O V} {store : U.Val O → U.Val V → U.Val O} (h : a.Focuses r w c store)
    (x : U.Val T) :
    (∃ o fill, w.borrow ⟨T, x⟩ = .ok ⟨O, o, fill⟩) ∨ ∃ f, w.borrow ⟨T, x⟩ = .error (f, x) := by
  cases hborrow : w.borrow ⟨T, x⟩ with
  | ok s =>
      obtain ⟨t, o, fill⟩ := s
      obtain rfl : t = O := h.arrives hborrow
      exact .inl ⟨o, fill, rfl⟩
  | error e =>
      obtain ⟨f, after⟩ := e
      have hkept : after = x := h.lawful.kept hborrow
      exact .inr ⟨f, by rw [hkept]⟩

/-! ### The members of a resolution -/

/-- The members of a resolution belong to the types that list them. -/
theorem Registry.Resolves.owns (hr : r.WellTyped) {t : U.Ty} {names : List String}
    {ds : List (Descriptor U)} (h : r.Resolves (r.info t) names ds) :
    ∀ d ∈ ds, r.Owns d.member.owner d.member := by
  generalize hi : r.info t = owner at h
  have hfirst : ∀ {t : U.Ty} {table : MemberTable (Member U)} {m : Member U} {name : String},
      (r.info t).composite? = some table → table.find? name = some m →
        m.owner = (r.info t).id → r.Owns m.owner m := by
    intro t table m name htable hfound howner
    rw [hr.id_info] at howner
    subst howner
    exact ⟨⟨table, htable, MemberTable.mem_of_find? hfound⟩, rfl⟩
  induction h generalizing t with
  | last htable hfound howner =>
      subst hi
      exact List.forall_mem_singleton.2 (hfirst htable hfound howner)
  | step htable hfound howner hcross _ ih =>
      subst hi
      obtain ⟨s, rfl⟩ := hcross.exists_info
      exact List.forall_mem_cons.2 ⟨hfirst htable hfound howner, ih rfl⟩

/-! ### Reading the last member -/

/-- The last member of a typed path is read in its owners. -/
theorem Path.Typed.readSteps_terminal (hp : p.Typed r)
    {c : Component U p.terminal.member.owner p.value}
    (hc : r.Addresses p.terminal.member.handles.handles c) (index : Nat)
    (o : U.Val p.terminal.member.owner) :
    Chain.readSteps (Chain.stepsFrom index [p.terminal]) ⟨p.terminal.member.owner, o⟩ =
      .ok ⟨p.value, c.read o⟩ := by
  have hread : p.terminal.member.handles.read ⟨p.terminal.member.owner, o⟩ =
      some ⟨p.value, p.terminal.member.handles.handles.get o⟩ := ErasedHandles.read_self _ o
  have hget : p.terminal.member.handles.handles.get o = c.read o := hc.get o
  rw [hget] at hread
  simp only [Chain.stepsFrom, Chain.readSteps, Descriptor.step, hread, hp.unwraps_terminal,
    Wrapper.openAll]

/-- A getter of a typed path that reads what a walk along all members reads. -/
theorem Path.Typed.getter_eq (hp : p.Typed r) {x : U.Val p.root.id}
    {outcome : Except Failure (U.Val p.value)}
    (h : (p.ownerAccess.read ⟨p.root.id, x⟩).bind
      (Chain.readSteps (Chain.stepsFrom p.parents.length [p.terminal])) =
        outcome.map (Dyn.mk p.value)) :
    (p.getter p.root.id p.value).get x = outcome := by
  have hmembers := hp.getter_get x
  rw [← p.parents_append_terminal, Chain.stepsFrom_append, Chain.readSteps_append, Nat.zero_add,
    ← Path.ownerAccess_read, h] at hmembers
  generalize (p.getter p.root.id p.value).get x = found at hmembers
  cases outcome with
  | error f =>
      cases found with
      | error g => exact congrArg Except.error (Except.error.inj hmembers).symm
      | ok v => cases hmembers
  | ok v =>
      cases found with
      | error g => cases hmembers
      | ok w =>
          have hv : v = w := eq_of_heq (Dyn.mk.inj (Except.ok.inj hmembers)).2
          exact congrArg Except.ok hv.symm

/-! ### Storing the last member -/

/-- A typed setter is the setter of the erased handles. -/
theorem ErasedHandles.fill_set {h : ErasedHandles U} {T : U.Ty} {k : Handles U T h.value}
    (hk : h.typed? T h.value = some k) {set : U.Val T → U.Val h.value → U.Val T}
    (hset : k.set = some set) {store : U.Val h.owner → U.Val h.value → U.Val h.owner}
    (hstore : h.handles.set = some store) {x : U.Val T} {o : U.Val h.owner}
    {fill : U.Val h.owner → U.Val T} (hslot : Slot.whole ⟨T, x⟩ = ⟨h.owner, o, fill⟩)
    (v : U.Val h.value) : set x v = fill (store o v) := by
  obtain ⟨owner, value, handles⟩ := h
  obtain ⟨rfl, -, hhandles⟩ := ErasedHandles.mk.inj (eq_of_typed? hk)
  obtain rfl := eq_of_heq hhandles
  obtain rfl : set = store := Option.some.inj (hset.symm.trans hstore)
  simp only [Slot.whole] at hslot
  cases hslot
  rfl

/-- **The last member of a path is assigned** by a function that replaces its component, but for the
books of the setter. -/
theorem Path.exists_store (hset : p.terminal.member.isWritable = true)
    {c : Component U p.terminal.member.owner p.value}
    (hc : r.Addresses p.terminal.member.handles.handles c) :
    ∃ store : U.Val p.terminal.member.owner → U.Val p.value → U.Val p.terminal.member.owner,
      (∀ o v, p.assign.perform ⟨p.terminal.member.owner, o⟩ v = (.ok (), store o v)) ∧
        ∀ o v, r.SameMembers p.terminal.member.owner (c.replace o v) (store o v) := by
  rw [Path.assign]
  by_cases hslot : p.terminal.member.kind = .field ∧ p.terminal.member.isTraversable = true
  · obtain ⟨borrow, hborrow⟩ := Option.isSome_iff_exists.1 hslot.2
    refine ⟨c.replace, fun o v => ?_, fun _ _ => .rfl⟩
    have hfill : (borrow o).2 = c.replace o := congrArg Prod.snd (hc.getMut hborrow o)
    have hperform := Assign.perform_slot hborrow o v
    rw [hfill] at hperform
    simp only [hslot, and_self, if_true]
    exact hperform
  · obtain ⟨store, hstore⟩ := Option.isSome_iff_exists.1 hset
    refine ⟨store, fun o v => ?_, hc.set hstore⟩
    simp only [hslot, if_false]
    exact Assign.perform_setter hstore o v

/-! ### Compiled accessors -/

/-- If a setter is found, the last member has one, and the members before it can be borrowed. -/
theorem Compiler.traversable_of_setter {compiler : Compiler} {T V : U.Ty} {s : Setter U T V}
    (hs : compiler.setter p T V = .ok s) :
    p.terminal.member.isWritable = true ∧ ∀ d ∈ p.parents, d.member.isTraversable = true := by
  obtain ⟨hset, ⟨set, -, htyped, -⟩ | ⟨-, -, hmut⟩⟩ := Compiler.setter_cases hs
  · obtain ⟨k, hk, -⟩ := Option.bind_eq_some_iff.1 htyped
    obtain ⟨hparents, -⟩ := Path.typed?_cases hk
    exact ⟨hset, fun d hd => absurd (hparents ▸ hd) List.not_mem_nil⟩
  · exact ⟨hset, hmut⟩

/-- The walk to the owner of the last member arrives at a value of its type, or misses a value. -/
theorem Path.Typed.borrow_owner (hr : r.WellTyped) (hp : p.Typed r)
    (hmut : ∀ d ∈ p.parents, d.member.isTraversable = true) {x : U.Val p.root.id}
    {outcome : Borrowed U (U.Val p.root.id)}
    (h : p.ownerAccess.borrow ⟨p.root.id, x⟩ = outcome) :
    (∃ s, outcome = .ok s ∧ s.ty = p.terminal.member.owner) ∨
      ∃ f after, outcome = .error (f, after) ∧ f.IsMissing := by
  have hwalk := hp.leads.readMutSteps hr hmut (d := ⟨p.root.id, x⟩) rfl 0
  rw [← p.ownerAccess_borrow, h] at hwalk
  exact hwalk

/-- The getter of a typed path is focused on the component of the last member, and so is its setter
if it stores the component in the owner, or fails where there is none. -/
theorem Path.Typed.focuses (hr : r.WellTyped) (hp : p.Typed r)
    (hlawful : p.ownerAccess.Lawful p.root.id)
    (hmut : ∀ d ∈ p.parents, d.member.isTraversable = true)
    {c : Component U p.terminal.member.owner p.value}
    (hc : r.Addresses p.terminal.member.handles.handles c) {s : Setter U p.root.id p.value}
    {store : U.Val p.terminal.member.owner → U.Val p.value → U.Val p.terminal.member.owner}
    (set_ok : ∀ {x o fill},
      p.ownerAccess.borrow ⟨p.root.id, x⟩ = .ok ⟨p.terminal.member.owner, o, fill⟩ →
        ∀ v, s.set x v = (.ok (), fill (store o v)))
    (set_error : ∀ {x after f}, p.ownerAccess.borrow ⟨p.root.id, x⟩ = .error (f, after) →
      ∀ v, s.set x v = (.error f, after))
    (stores : ∀ o v, r.SameMembers p.terminal.member.owner (c.replace o v) (store o v)) :
    Accessor.Focuses r ⟨p.getter p.root.id p.value, s, p.names⟩ p.ownerAccess c store where
  lawful := hlawful
  arrives hs := by
    rcases hp.borrow_owner hr hmut hs with ⟨s', hs', hty⟩ | ⟨f, after, hf, -⟩
    · obtain rfl := Except.ok.inj hs'
      exact hty
    · cases hf
  missing hf := by
    rcases hp.borrow_owner hr hmut hf with ⟨s', hs', -⟩ | ⟨f', after', hf', hmissing⟩
    · cases hs'
    · obtain ⟨rfl, -⟩ := Prod.mk.inj (Except.error.inj hf')
      exact hmissing
  get_ok hs := by
    refine hp.getter_eq ?_
    rw [hlawful.read_ok hs]
    exact hp.readSteps_terminal hc _ _
  get_error hf := by
    refine hp.getter_eq ?_
    rw [hlawful.read_error hf]
    rfl
  set_ok := set_ok
  set_error := set_error
  stores := stores

/-- The last member of a resolved path belongs to the type that lists it. -/
theorem Path.owns_terminal (hr : r.WellTyped) {T : U.Ty} {names : List String}
    (hroot : p.root = r.info T) (h : r.Resolves p.root names p.members) :
    r.Owns p.terminal.member.owner p.terminal.member :=
  Registry.Resolves.owns hr (hroot ▸ h) _ (List.getLast_mem p.nonempty)

/-- The access to the owner of the last member of a resolved path is lawful, if it can be
borrowed. -/
theorem Path.lawful_ownerAccess (hr : r.LawfulInfos) {T : U.Ty} {names : List String}
    (hroot : p.root = r.info T) (h : r.Resolves p.root names p.members)
    (hmut : ∀ d ∈ p.parents, d.member.isTraversable = true) :
    p.ownerAccess.Lawful p.root.id := by
  have hp : p.Typed r := Registry.typed_of_resolves hr.toWellTyped h
  have howns : ∀ d ∈ p.parents, r.Owns d.member.owner d.member := by
    intro d hd
    have hmem : d ∈ p.members := p.parents_append_terminal ▸ List.mem_append_left _ hd
    exact Registry.Resolves.owns hr.toWellTyped (hroot ▸ h) d hmem
  exact hp.leads.lawful_walk hr howns hmut 0

/-- **A compiled accessor is focused** on the component of the last member of its path. -/
theorem Path.exists_focuses (hr : r.LawfulInfos) {T : U.Ty} {names : List String}
    (hroot : p.root = r.info T) (h : r.Resolves p.root names p.members) {compiler : Compiler}
    {s : Setter U p.root.id p.value} (hs : compiler.setter p p.root.id p.value = .ok s) :
    ∃ c : Component U p.terminal.member.owner p.value,
      r.Addresses p.terminal.member.handles.handles c ∧ ∃ store,
        Accessor.Focuses r ⟨p.getter p.root.id p.value, s, p.names⟩ p.ownerAccess c store := by
  have hp : p.Typed r := Registry.typed_of_resolves hr.toWellTyped h
  obtain ⟨hset, hmut⟩ := Compiler.traversable_of_setter hs
  have hlawful : p.ownerAccess.Lawful p.root.id := Path.lawful_ownerAccess hr hroot h hmut
  obtain ⟨c, hc⟩ := hr.addresses (Path.owns_terminal hr.toWellTyped hroot h)
  refine ⟨c, hc, ?_⟩
  rcases (Compiler.setter_cases hs).2 with ⟨set, -, htyped, rfl⟩ | ⟨-, rfl, -⟩
  · obtain ⟨k, hk, hkset⟩ := Option.bind_eq_some_iff.1 htyped
    obtain ⟨hparents, hhandles⟩ := Path.typed?_cases hk
    obtain ⟨store, hstore⟩ := Option.isSome_iff_exists.1 hset
    have hwhole : ∀ x, p.ownerAccess.borrow ⟨p.root.id, x⟩ = .ok (Slot.whole ⟨p.root.id, x⟩) := by
      intro x
      rw [p.ownerAccess_borrow, hparents]
      rfl
    refine ⟨store, hp.focuses hr.toWellTyped hlawful hmut hc (fun hs v => ?_) (fun hf v => ?_)
      (hc.set hstore)⟩
    · have hslot := Except.ok.inj ((hwhole _).symm.trans hs)
      have hfill := ErasedHandles.fill_set hhandles hkset hstore hslot v
      exact congrArg (Prod.mk _) hfill
    · cases (hwhole _).symm.trans hf
  · obtain ⟨store, hperform, hstores⟩ := Path.exists_store hset hc
    refine ⟨store, hp.focuses hr.toWellTyped hlawful hmut hc (fun hs v => ?_) (fun hf v => ?_)
      hstores⟩
    · rw [p.ownerAccess_borrow] at hs
      simp only [Setter.set, Chain.readMut, Chain.steps_ofDescriptors, hs, Slot.dyn_mk, hperform]
    · rw [p.ownerAccess_borrow] at hf
      simp only [Setter.set, Chain.readMut, Chain.steps_ofDescriptors, hf]

end MemberAccess
