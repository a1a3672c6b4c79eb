import MemberAccess.Proofs.Accessor.LookUp
import MemberAccess.Proofs.Accessor.Safety

/-!
# Compiled accessors refine look-up by name

A resolved path and a look-up of its names go through the same members. What the path remembers of
the types (members, wrappers, owners) is what the look-up finds on the values, since in a
well-typed registry the value in which a name is looked up has the type that the path expects
there. So the walk of a chain and the look-up agree step by step, with an inner induction over the
wrappers between two members.

An accessor need not walk a chain: a single member is read and written by its typed handles, and a
field may be written through a borrow of its own. In a lawful registry this makes no difference
but for the books that a setter keeps.

## Main results

* `Registry.Resolves.lookUp`, `Registry.Resolves.borrowOwner`: walks of a resolved path are
  look-ups of its names.
* `Path.getter_get`, `Path.perform_assign`: the other ways to read and to write agree with walks.
* `Registry.compiled_accessor_refines`: a compiled accessor reads and writes what look-up by name
  reads and writes.
-/

namespace MemberAccess

variable {U : Universe} {r : Registry U}

/-! ### Owners -/

/-- A composite is no wrapper. -/
theorem TypeInfo.wrapper?_of_composite? {i : TypeInfo U} {table : MemberTable (Member U)}
    (h : i.composite? = some table) : i.wrapper? = none := by
  obtain ⟨id, shape⟩ := i
  cases shape with
  | composite => rfl
  | _ => cases h

/-- The member found in the table of a composite. -/
theorem TypeInfo.member?_of_find? {i : TypeInfo U} {table : MemberTable (Member U)} {m : Member U}
    {name : String} (htable : i.composite? = some table) (hfound : table.find? name = some m) :
    i.member? name = .ok m := by
  rw [member?, htable]
  simp only [hfound]

/-- What is found in a table is listed in it. -/
theorem MemberTable.mem_of_find? {α : Type} {table : MemberTable α} {name : String} {m : α}
    (h : table.find? name = some m) : m ∈ table.members := by
  obtain ⟨position, -, hat⟩ := Option.bind_eq_some_iff.1 h
  exact List.mem_of_getElem? hat

namespace Registry

/-- A value of a composite type is entered as it is. -/
theorem enter_of_composite? {d : Dyn U} {table : MemberTable (Member U)}
    (h : (r.info d.ty).composite? = some table) (last : LastRead) :
    r.enter last d = some (.ok d) := by
  cases last with
  | none => rfl
  | some read => rw [enter, openWhileWrapped_eq, TypeInfo.wrapper?_of_composite? h]

/-- A value of a composite type is borrowed as it is. -/
theorem enterMut_of_composite? {d : Dyn U} {table : MemberTable (Member U)}
    (h : (r.info d.ty).composite? = some table) (last : LastRead) :
    r.enterMut last d = some (.ok (Slot.whole d)) := by
  cases last with
  | none => rfl
  | some read => rw [enterMut, openMutWhileWrapped_eq, TypeInfo.wrapper?_of_composite? h]

/-! ### Wrappers -/

/-- **Opening the wrappers that the values show** is opening the wrappers of a crossing. -/
theorem Crosses.openWhileWrapped (hr : r.WellTyped) {d : Dyn U} {ws : List (Wrapper U)}
    {j : TypeInfo U} (h : r.Crosses (r.info d.ty) ws j) (missing : Failure) :
    r.openWhileWrapped missing d =
      some (match Wrapper.openAll ws d with
        | none => .error missing
        | some e => .ok e) := by
  generalize hi : r.info d.ty = i at h
  induction h generalizing d with
  | stop hstop => rw [Registry.openWhileWrapped_eq, hi, hstop, Wrapper.openAll]
  | @enter i j w ws hw _ ih =>
      rw [Registry.openWhileWrapped_eq, hi, hw, Wrapper.openAll]
      cases hinner : w.unwrap d with
      | none => simp only [Option.bind_none, hinner]
      | some inner =>
          have hty : inner.ty = w.target := hr.unwrap_target (hi ▸ hw) d.val hinner
          simp only [Option.bind_some, hinner]
          exact ih (congrArg r.info hty)

/-- **Borrowing through the wrappers that the values show** is borrowing through those of a
crossing. -/
theorem Crosses.openMutWhileWrapped (hr : r.WellTyped) {d : Dyn U} {ws : List (Wrapper U)}
    {j : TypeInfo U} (h : r.Crosses (r.info d.ty) ws j) (missing : Failure) :
    r.openMutWhileWrapped missing d =
      some (match Wrapper.openAllMut ws d with
        | .error content => .error (missing, content)
        | .ok s => .ok s) := by
  generalize hi : r.info d.ty = i at h
  induction h generalizing d with
  | stop hstop => rw [Registry.openMutWhileWrapped_eq, hi, hstop, Wrapper.openAllMut]
  | @enter i j w ws hw _ ih =>
      rw [Registry.openMutWhileWrapped_eq, hi, hw, Wrapper.openAllMut]
      cases hinner : w.unwrapMut d with
      | none => simp only [hinner]
      | some inner =>
          have hty : inner.dyn.ty = w.target := hr.unwrapMut_target (hi ▸ hw) d.val hinner
          simp only [hinner, ih (congrArg r.info hty)]
          cases Wrapper.openAllMut ws inner.dyn with
          | error content => rfl
          | ok part => rfl

/-! ### Walks -/

/-- A look-up after wrappers were opened goes on inside them. -/
theorem lookUp_of_enter {last : LastRead} {d e : Dyn U} {table : MemberTable (Member U)}
    (hd : r.enter last d = some (.ok e)) (he : (r.info e.ty).composite? = some table)
    {name : String} {more : List String} :
    r.lookUp last d (name :: more) = r.lookUp last e (name :: more) := by
  rw [lookUp, lookUp, hd, enter_of_composite? he]

/-- A borrow that finds an empty wrapper ends there. -/
theorem borrowOwner_of_enterMut_error {last : LastRead} {d : Dyn U} {f : Failure}
    {after : U.Val d.ty} (hd : r.enterMut last d = some (.error (f, after)))
    (front : List String) :
    r.borrowOwner last d front = some (.error (.failure f, after)) := by
  cases front with
  | nil => rw [borrowOwner, hd]
  | cons name more => rw [borrowOwner, hd]

/-- A borrow after wrappers were opened goes on inside them. -/
theorem borrowOwner_of_enterMut {last : LastRead} {d : Dyn U} {s : Slot U (U.Val d.ty)}
    {table : MemberTable (Member U)} (hd : r.enterMut last d = some (.ok s))
    (hs : (r.info s.ty).composite? = some table) (front : List String) :
    r.borrowOwner last d front = (r.borrowOwner last s.dyn front).map (Slot.within s.fill) := by
  obtain ⟨t, content, fill⟩ := s
  have henter : r.enterMut last ⟨t, content⟩ = some (.ok (Slot.whole ⟨t, content⟩)) :=
    enterMut_of_composite? hs last
  cases front with
  | nil => simp only [borrowOwner, hd, Slot.dyn, henter]; rfl
  | cons name more =>
      simp only [borrowOwner, hd, Slot.dyn, henter, Slot.whole, Slot.restore]
      cases (r.info t).member? name with
      | error e => rfl
      | ok m =>
          cases hpart : m.handles.readMut ⟨t, content⟩ with
          | none => simp only [hpart]; rfl
          | some part =>
              simp only [hpart, Option.map_map, Slot.within_comp]
              rfl

/-- A name is resolved in a composite. -/
theorem Resolves.exists_table {owner : TypeInfo U} {names : List String}
    {ds : List (Descriptor U)} (h : r.Resolves owner names ds) :
    ∃ table, owner.composite? = some table := by
  cases h with
  | last htable _ _ => exact ⟨_, htable⟩
  | step htable _ _ _ _ => exact ⟨_, htable⟩

/-- **Reading along a resolution** is looking its names up. -/
theorem Resolves.lookUp (hr : r.WellTyped) {owner : TypeInfo U} {names : List String}
    {ds : List (Descriptor U)} (h : r.Resolves owner names ds) {d : Dyn U}
    (hd : r.info d.ty = owner) (last : LastRead) :
    r.lookUp last d names =
      some ((Chain.readSteps (Chain.stepsFrom last.next ds) d).mapError .failure) := by
  induction h generalizing d last with
  | last htable hfound _ =>
      rw [Registry.lookUp, enter_of_composite? (hd ▸ htable)]
      simp only [hd, TypeInfo.member?_of_find? htable hfound, Chain.stepsFrom, Chain.readSteps,
        Descriptor.step]
      cases hread : ErasedHandles.read _ d with
      | none => rfl
      | some v => rfl
  | @step owner next table m ws name second more ds htable hfound _ hcross hrest ih =>
      rw [Registry.lookUp, enter_of_composite? (hd ▸ htable)]
      simp only [hd, TypeInfo.member?_of_find? htable hfound, Chain.stepsFrom, Chain.readSteps,
        Descriptor.step]
      cases hread : m.handles.read d with
      | none => rfl
      | some v =>
          have hty : v.ty = m.value := ErasedHandles.ty_of_read hread
          have hcross : r.Crosses (r.info v.ty) ws next := hty ▸ hcross
          cases hopen : Wrapper.openAll ws v with
          | none =>
              simp only [hopen, Registry.lookUp, enter, hcross.openWhileWrapped hr]
              rfl
          | some inner =>
              have henter : r.enter (some (m.name, last.next)) v = some (.ok inner) := by
                simp only [enter, hcross.openWhileWrapped hr, hopen]
              have hinner : r.info inner.ty = next := hcross.openAll hr hopen
              obtain ⟨table, htable⟩ := hrest.exists_table
              simp only [hopen]
              rw [lookUp_of_enter henter (hinner ▸ htable), ih hinner]
              rfl

/-- **Borrowing along a resolution** up to its last member is borrowing the owner of that member
by look-up. -/
theorem Resolves.borrowOwner (hr : r.WellTyped) {owner : TypeInfo U} {names : List String}
    {ds : List (Descriptor U)} (h : r.Resolves owner names ds) {d : Dyn U}
    (hd : r.info d.ty = owner) (last : LastRead) :
    r.borrowOwner last d names.dropLast =
      some (match Chain.readMutSteps (Chain.stepsFrom last.next ds.dropLast) d with
        | .error (f, after) => .error (.failure f, after)
        | .ok s => .ok s) := by
  induction h generalizing d last with
  | last htable hfound _ =>
      simp only [List.dropLast_singleton, Registry.borrowOwner,
        enterMut_of_composite? (hd ▸ htable), Chain.stepsFrom, Chain.readMutSteps]
  | @step owner next table m ws name second more ds htable hfound _ hcross hrest ih =>
      obtain ⟨table', htable'⟩ := hrest.exists_table
      have hds : ds ≠ [] := by
        rintro rfl
        cases hrest
      rw [List.dropLast_cons_of_ne_nil hds, List.dropLast_cons_of_ne_nil (List.cons_ne_nil _ _)]
      simp only [Registry.borrowOwner, enterMut_of_composite? (hd ▸ htable), Slot.whole,
        Slot.dyn_mk, Slot.restore, hd, TypeInfo.member?_of_find? htable hfound, Chain.stepsFrom,
        Chain.readMutSteps, Descriptor.step]
      cases hread : m.handles.readMut d with
      | none => rfl
      | some part =>
          have hty : part.dyn.ty = m.value := ErasedHandles.ty_of_readMut hread
          have hcross : r.Crosses (r.info part.dyn.ty) ws next := hty ▸ hcross
          simp only
          cases hopen : Wrapper.openAllMut ws part.dyn with
          | error content =>
              have henter : r.enterMut (some (m.name, last.next)) part.dyn =
                  some (.error (.missingIntermediate m.name last.next, content)) := by
                simp only [enterMut, hcross.openMutWhileWrapped hr, hopen]
              simp only [borrowOwner_of_enterMut_error henter]
              rfl
          | ok inner =>
              have henter : r.enterMut (some (m.name, last.next)) part.dyn = some (.ok inner) := by
                simp only [enterMut, hcross.openMutWhileWrapped hr, hopen]
              have hinner : r.info inner.dyn.ty = next := hcross.openAllMut hr hopen
              have hfront := ih hinner (some (m.name, last.next))
              rw [LastRead.next_some] at hfront
              rw [borrowOwner_of_enterMut henter (hinner ▸ htable')]
              cases hwalk : Chain.readMutSteps (Chain.stepsFrom (last.next + 1) ds.dropLast)
                  inner.dyn with
              | error stopped =>
                  rw [hwalk] at hfront
                  simp only [hfront, hwalk]
                  rfl
              | ok slot =>
                  rw [hwalk] at hfront
                  simp only [hfront, hwalk]
                  rfl

/-! ### The last member -/

/-- **The last member of a resolution** is found under the last name in the type of its owners, and
belongs to that type. -/
theorem Resolves.terminal (hr : r.WellTyped) {t : U.Ty} {names : List String}
    {ds : List (Descriptor U)} (h : r.Resolves (r.info t) names ds) :
    ∃ front name before last, names = front ++ [name] ∧ ds = before ++ [last] ∧
      (r.info last.member.owner).member? name = .ok last.member ∧
      r.Owns last.member.owner last.member := by
  generalize hi : r.info t = owner at h
  induction h generalizing t with
  | @last owner table m name htable hfound howner =>
      obtain rfl : m.owner = t := by rw [howner, ← hi, hr.id_info]
      rw [← hi] at htable
      exact ⟨[], name, [], ⟨m, owner, []⟩, rfl, rfl, TypeInfo.member?_of_find? htable hfound,
        ⟨table, htable, MemberTable.mem_of_find? hfound⟩, rfl⟩
  | @step owner next table m ws name second more ds _ _ _ hcross _ ih =>
      obtain ⟨s, rfl⟩ := hcross.exists_info
      obtain ⟨front, final, before, last, hnames, rfl, hfound, howns⟩ := ih rfl
      exact ⟨name :: front, final, ⟨m, owner, ws⟩ :: before, last, congrArg (name :: ·) hnames, rfl,
        hfound, howns⟩

end Registry

variable {p : Path U}

/-! ### Reading -/

/-- What a walk to the last member of a path reads is of the type of the member, if no wrapper is
crossed after it. -/
theorem Path.ty_of_readSteps (hp : p.terminal.unwraps = []) {d e : Dyn U}
    (h : Chain.readSteps (Chain.stepsFrom 0 p.members) d = .ok e) : e.ty = p.value := by
  rw [← p.parents_append_terminal, Chain.stepsFrom_append, Chain.readSteps_append] at h
  cases howner : Chain.readSteps (Chain.stepsFrom 0 p.parents) d with
  | error f =>
      rw [howner] at h
      cases h
  | ok owner =>
      rw [howner] at h
      simp only [Except.bind, Chain.stepsFrom, Chain.readSteps, Descriptor.step, hp,
        Wrapper.openAll] at h
      cases hread : p.terminal.member.handles.read owner with
      | none => simp only [hread, reduceCtorEq] at h
      | some v =>
          simp only [hread, Except.ok.injEq] at h
          exact h ▸ ErasedHandles.ty_of_read hread

/-- **The getter of a path** gives what reading along all its members gives, also where it uses the
typed handle of a single member. -/
theorem Path.getter_get (hp : p.terminal.unwraps = []) (root : U.Val p.root.id) :
    Chain.readSteps (Chain.stepsFrom 0 p.members) ⟨p.root.id, root⟩ =
      ((p.getter p.root.id p.value).get root).map (Dyn.mk p.value) := by
  rw [Path.getter]
  cases htyped : p.typed? p.root.id p.value with
  | some k =>
      obtain ⟨hparents, hhandles⟩ := Path.typed?_cases htyped
      have hread := ErasedHandles.read_of_typed? hhandles root
      rw [← p.parents_append_terminal, hparents]
      simp only [List.nil_append, Chain.stepsFrom, Chain.readSteps, Descriptor.step, hread, hp,
        Wrapper.openAll]
      rfl
  | none =>
      simp only [Getter.get, Chain.read, Chain.steps_ofDescriptors]
      cases hwalk : Chain.readSteps (Chain.stepsFrom 0 p.members) ⟨p.root.id, root⟩ with
      | error f => rfl
      | ok d =>
          obtain ⟨t, v⟩ := d
          obtain rfl : t = p.value := Path.ty_of_readSteps hp hwalk
          simp only [Dyn.as?_self, Except.map]

/-- An accessor of a path reads what a walk along all its members reads. -/
theorem Path.CompilesTo.readSteps_members {T V : U.Ty} {a : Accessor U T V} (ha : p.CompilesTo a)
    (hp : p.terminal.unwraps = []) (x : U.Val T) :
    Chain.readSteps (Chain.stepsFrom 0 p.members) ⟨T, x⟩ = (a.get x).map (Dyn.mk V) := by
  obtain ⟨rfl, rfl, hgetter⟩ := ha.getter_eq
  rw [Accessor.get, hgetter]
  exact Path.getter_get hp x

/-- Outcomes that are the same as values of some type are the same. -/
theorem Dyn.map_mk_inj {ε : Type} {t : U.Ty} {x y : Except ε (U.Val t)}
    (h : x.map (Dyn.mk t) = y.map (Dyn.mk t)) : x = y := by
  cases x with
  | error e =>
      cases y with
      | error f => exact congrArg Except.error (Except.error.inj h)
      | ok w => cases h
  | ok v =>
      cases y with
      | error f => cases h
      | ok w => exact congrArg Except.ok (eq_of_heq (Dyn.mk.inj (Except.ok.inj h)).2)

/-- The getter of a typed path gives what reading along all its members gives. -/
theorem Path.Typed.getter_get (hp : p.Typed r) (root : U.Val p.root.id) :
    Chain.readSteps (Chain.stepsFrom 0 p.members) ⟨p.root.id, root⟩ =
      ((p.getter p.root.id p.value).get root).map (Dyn.mk p.value) :=
  Path.getter_get hp.unwraps_terminal root

/-! ### Assignments -/

/-- **The last member of a path is assigned** as by its setter, but for the books of the setter. -/
theorem Path.perform_assign (hr : r.Lawful)
    (howns : r.Owns p.terminal.member.owner p.terminal.member)
    (hset : p.terminal.member.isWritable = true) (o : U.Val p.terminal.member.owner)
    (v : U.Val p.value) :
    ∃ done after, p.assign.perform ⟨p.terminal.member.owner, o⟩ v = (.ok (), done) ∧
      p.terminal.member.handles.assign ⟨p.terminal.member.owner, o⟩ ⟨p.value, some v⟩ =
        some after ∧
      r.SameMembers p.terminal.member.owner done after := by
  obtain ⟨set, hset⟩ := Option.isSome_iff_exists.1 hset
  have hassign : p.terminal.member.handles.assign ⟨p.terminal.member.owner, o⟩
      ⟨p.value, some v⟩ = some (set o v) := ErasedHandles.assign_self hset o v
  rw [Path.assign]
  by_cases hslot : p.terminal.member.kind = .field ∧ p.terminal.member.isTraversable = true
  · obtain ⟨borrow, hborrow⟩ := Option.isSome_iff_exists.1 hslot.2
    obtain ⟨component, haddresses⟩ := hr.addresses howns
    refine ⟨(borrow o).2 v, set o v, ?_, hassign, ?_⟩
    · simp only [hslot, and_self, if_true]
      exact Assign.perform_slot hborrow o v
    · have hfill : (borrow o).2 v = component.replace o v :=
        congrFun (congrArg Prod.snd (haddresses.getMut hborrow o)) v
      rw [hfill]
      exact haddresses.set hset o v
  · refine ⟨set o v, set o v, ?_, hassign, .rfl⟩
    simp only [hslot, if_false]
    exact Assign.perform_setter hset o v

/-! ### Setters -/

/-- **The setter of a resolved path** has the outcome of a write by look-up, and leaves the root
with the same components. -/
theorem Path.setter_refines_write (hr : r.Lawful) {T : U.Ty} {names : List String}
    (hroot : p.root = r.info T) (h : r.Resolves p.root names p.members) {c : Compiler}
    {s : Setter U p.root.id p.value} (hs : c.setter p p.root.id p.value = .ok s) :
    ∃ front name, names = front ++ [name] ∧ ∀ (x : U.Val p.root.id) (v : U.Val p.value),
      ∃ after, r.write ⟨p.root.id, x⟩ front name ⟨p.value, v⟩ =
          some ((s.set x v).1.mapError .failure, after) ∧
        r.SameComponents ⟨p.root.id, x⟩ front (s.set x v).2 after := by
  have hp : p.Typed r := Registry.typed_of_resolves hr.toWellTyped h
  have hid : r.info p.root.id = p.root := by rw [hroot, hr.id_info]
  obtain ⟨front, name, before, last, rfl, hmembers, hfound, howns⟩ :=
    Registry.Resolves.terminal hr.toWellTyped (hid ▸ h)
  obtain ⟨-, rfl⟩ := Path.parents_terminal_of_members hmembers
  refine ⟨front, name, rfl, fun x v => ?_⟩
  have hborrow := h.borrowOwner hr.toWellTyped (d := ⟨p.root.id, x⟩) hid none
  have hdrop : p.members.dropLast = p.parents := rfl
  rw [List.dropLast_concat, hdrop, LastRead.next_none] at hborrow
  obtain ⟨hset, ⟨set, -, htyped, rfl⟩ | ⟨-, rfl, hmut⟩⟩ := Compiler.setter_cases hs
  · obtain ⟨k, hk, hkset⟩ := Option.bind_eq_some_iff.1 htyped
    obtain ⟨hparents, hhandles⟩ := Path.typed?_cases hk
    have hassign := ErasedHandles.assign_of_typed? hhandles hkset x v
    have howner : p.terminal.member.owner = p.root.id :=
      congrArg ErasedHandles.owner (ErasedHandles.eq_of_typed? hhandles)
    rw [hparents] at hborrow
    rw [howner] at hfound
    refine ⟨set x v, ?_, .refl _⟩
    simp only [Registry.write, hborrow, Chain.stepsFrom, Chain.readMutSteps, Slot.whole,
      Slot.dyn_mk, hfound, hassign]
    rfl
  · simp only [Setter.set, Chain.readMut, Chain.steps_ofDescriptors]
    rcases hp.leads.readMutSteps hr.toWellTyped hmut (d := ⟨p.root.id, x⟩) rfl 0 with
      ⟨owner, howner, hty⟩ | ⟨f, after, hfail, -⟩
    · obtain ⟨t, content, fill⟩ := owner
      obtain rfl : t = p.terminal.member.owner := hty
      obtain ⟨done, after, hperform, hassign, hsame⟩ := Path.perform_assign hr howns hset content v
      rw [howner] at hborrow
      simp only [Registry.write, hborrow, howner, hfound, Slot.dyn_mk, hperform, hassign]
      exact ⟨fill after, rfl, .owner hborrow hsame⟩
    · rw [hfail] at hborrow
      simp only [Registry.write, hborrow, hfail]
      exact ⟨after, rfl, .refl _⟩

/-! ### Accessors -/

/-- A specification that is compiled is parsed, and its path is compiled. -/
theorem Compiler.compileSpec_cases {c : Compiler} {T V : U.Ty} {spec : PathSpec}
    {a : Accessor U T V} {log : List LogRecord}
    (h : c.compileSpec r T V spec = some ⟨.ok a, log⟩) :
    ∃ p before, r.parse (r.info T) spec = some ⟨.ok p, before⟩ ∧
      (c.compile T V p).value = .ok a := by
  obtain ⟨⟨value, before⟩, hparse, hnext⟩ := Option.map_eq_some_iff.1 h
  cases value with
  | error e => simp only [bind, pure, Logged.mk.injEq, reduceCtorEq, false_and] at hnext
  | ok p =>
      simp only [bind, Logged.mk.injEq] at hnext
      exact ⟨p, before, hparse, hnext.1⟩

/-- **A compiled accessor refines look-up by name.** Let a specification be compiled in a lawful
registry. On every root, reading gives what the look-up of its names gives, and writing has the
outcome that assigning by look-up has. Both writes leave the root with the same components. -/
theorem Registry.compiled_accessor_refines (hr : r.Lawful) {c : Compiler} {T V : U.Ty}
    {spec : PathSpec} {a : Accessor U T V} {log : List LogRecord}
    (h : c.compileSpec r T V spec = some ⟨.ok a, log⟩) :
    ∃ front name, spec.memberNames = .ok (front ++ [name]) ∧ ∀ x : U.Val T,
      r.lookUp none ⟨T, x⟩ (front ++ [name]) =
          some (((a.get x).map (Dyn.mk V)).mapError .failure) ∧
        ∀ v : U.Val V, ∃ after,
          r.write ⟨T, x⟩ front name ⟨V, v⟩ = some ((a.set x v).1.mapError .failure, after) ∧
            r.SameComponents ⟨T, x⟩ front (a.set x v).2 after := by
  obtain ⟨p, before, hparse, hcompile⟩ := Compiler.compileSpec_cases h
  obtain ⟨names, hnames, hroot, hresolves⟩ := resolves_of_parse hparse
  obtain ⟨rfl, rfl, s, hs, rfl⟩ := Compiler.compile_cases hcompile
  have hresolves : r.Resolves p.root names p.members := hroot ▸ hresolves
  have hp : p.Typed r := typed_of_resolves hr.toWellTyped hresolves
  obtain ⟨front, name, rfl, hset⟩ := Path.setter_refines_write hr hroot hresolves hs
  refine ⟨front, name, hnames, fun x => ⟨?_, hset x⟩⟩
  rw [hresolves.lookUp hr.toWellTyped (d := ⟨p.root.id, x⟩) hroot.symm none, LastRead.next_none,
    hp.getter_get]
  rfl

/-- In the objects that may be linked to a next one, the count of the next is compiled to an
accessor that reads and writes what look-up by name reads and writes. -/
theorem Declarations.linked_accessor_refines :
    (Declarations.linked.registry []).Lawful ∧
      ∃ a log, Compiler.compileSpec ⟨false⟩ (Declarations.linked.registry []) (Ty.declared 0)
          (Ty.prim .i32) (.text "|x| x.next.count") = some ⟨.ok a, log⟩ ∧
        ∃ front name, PathSpec.memberNames (.text "|x| x.next.count") = .ok (front ++ [name]) ∧
          ∀ x, (Declarations.linked.registry []).lookUp none ⟨Ty.declared 0, x⟩
                (front ++ [name]) =
              some (((a.get x).map (Dyn.mk (Ty.prim .i32))).mapError .failure) ∧
            ∀ v, ∃ after, (Declarations.linked.registry []).write ⟨Ty.declared 0, x⟩ front name
                ⟨Ty.prim .i32, v⟩ = some ((a.set x v).1.mapError .failure, after) ∧
              (Declarations.linked.registry []).SameComponents ⟨Ty.declared 0, x⟩ front
                (a.set x v).2 after := by
  have hr := Declarations.linked.lawful_registry []
  have htest : (Compiler.compileSpec ⟨false⟩ (Declarations.linked.registry []) (Ty.declared 0)
      (Ty.prim .i32) (.text "|x| x.next.count")).any
        (fun found => found.value.toOption.any fun _ => true) = true := by
    decide +kernel
  obtain ⟨a, log, hcompile, -⟩ := Logged.exists_of_any htest
  exact ⟨hr, a, log, hcompile, Registry.compiled_accessor_refines hr hcompile⟩

end MemberAccess
