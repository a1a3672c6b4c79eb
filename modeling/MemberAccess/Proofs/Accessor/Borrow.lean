import MemberAccess.Proofs.Accessor.LookUp
import MemberAccess.Proofs.Accessor.Walk

/-!
# Reading and borrowing agree

A getter reads along a path and a setter borrows along it, through different functions of the
members and wrappers on the way. An `Access` holds two such functions side by side. It is lawful for
the values of a type if both fail alike or arrive at the same content, if borrowing changes nothing,
and if what is filled into a slot is what is borrowed there afterwards, with the same slot around
it.

Members and wrappers are accesses, and a walk along a path is composed of them. As lawful accesses
compose, a walk is lawful if the members and wrappers on the way are.

## Main definitions

* `Access`, `Access.comp`: reading and borrowing side by side, one access after another.
* `Access.Lawful`: the two agree.
* `Access.Reaches`: a lawful access from the values of a type to those of another.
* `Access.walk`: the access of a list of steps.

## Main results

* `Access.Lawful.read_eq_ok_iff`, `Access.Lawful.read_eq_error_iff`, `Access.Lawful.read_fill`: what
  is read is what is borrowed, and what was filled in.
* `Access.Lawful.comp`, `Access.Reaches.comp`: lawful accesses compose.
* `Access.walk_read`, `Access.walk_borrow`: the walks of a chain are the two sides of one access.
* `Registry.Leads.reaches_walk`: in a registry of lawful descriptions, a walk along members reaches
  the type that they lead to.
-/

namespace MemberAccess

variable {U : Universe} {r : Registry U}

/-- The outcome of a borrow: a slot, or a failure with the value afterwards. -/
abbrev Borrowed (U : Universe) (A : Type) := Except (Failure × A) (Slot U A)

/-- **Reading and borrowing side by side.** -/
structure Access (U : Universe) where
  read : Dyn U → Except Failure (Dyn U)
  borrow : (d : Dyn U) → Borrowed U (U.Val d.ty)

namespace Access

/-- The access to a whole value. -/
def whole : Access U := ⟨.ok, fun d => .ok (Slot.whole d)⟩

/-- **One access after another.** -/
def comp (a b : Access U) : Access U where
  read d := (a.read d).bind b.read
  borrow d :=
    match a.borrow d with
    | .error e => .error e
    | .ok s => Slot.within s.fill (b.borrow s.dyn)

/-- **A lawful access** to the values of the type `t`. -/
structure Lawful (a : Access U) (t : U.Ty) : Prop where
  read_ok {x : U.Val t} {s : Slot U (U.Val t)} (hs : a.borrow ⟨t, x⟩ = .ok s) :
    a.read ⟨t, x⟩ = .ok s.dyn
  read_error {x after : U.Val t} {f : Failure} (hf : a.borrow ⟨t, x⟩ = .error (f, after)) :
    a.read ⟨t, x⟩ = .error f
  kept {x after : U.Val t} {f : Failure} (hf : a.borrow ⟨t, x⟩ = .error (f, after)) : after = x
  restore {x : U.Val t} {s : Slot U (U.Val t)} (hs : a.borrow ⟨t, x⟩ = .ok s) : s.restore = x
  refill {x : U.Val t} {s : Slot U (U.Val t)} (hs : a.borrow ⟨t, x⟩ = .ok s) (v : U.Val s.ty) :
    a.borrow ⟨t, s.fill v⟩ = .ok ⟨s.ty, v, s.fill⟩

namespace Lawful

variable {a : Access U} {t : U.Ty} {x : U.Val t}

/-- **What is read is the content of what is borrowed.** -/
theorem read_eq_ok_iff (h : a.Lawful t) {v : Dyn U} :
    a.read ⟨t, x⟩ = .ok v ↔ ∃ s, a.borrow ⟨t, x⟩ = .ok s ∧ s.dyn = v := by
  constructor
  · intro hv
    cases hs : a.borrow ⟨t, x⟩ with
    | ok s => exact ⟨s, rfl, Except.ok.inj ((h.read_ok hs).symm.trans hv)⟩
    | error e => cases (h.read_error hs).symm.trans hv
  · rintro ⟨s, hs, rfl⟩
    exact h.read_ok hs

/-- **Reading fails exactly where borrowing does,** which then gives the value back. -/
theorem read_eq_error_iff (h : a.Lawful t) {f : Failure} :
    a.read ⟨t, x⟩ = .error f ↔ a.borrow ⟨t, x⟩ = .error (f, x) := by
  constructor
  · intro hf
    cases hs : a.borrow ⟨t, x⟩ with
    | ok s => cases (h.read_ok hs).symm.trans hf
    | error e =>
        have hfailure : e.1 = f := Except.error.inj ((h.read_error hs).symm.trans hf)
        have hkept : e.2 = x := h.kept hs
        rw [← hfailure, ← hkept]
  · exact fun hf => h.read_error hf

/-- **What is filled into a slot is read** afterwards. -/
theorem read_fill (h : a.Lawful t) {s : Slot U (U.Val t)} (hs : a.borrow ⟨t, x⟩ = .ok s)
    (v : U.Val s.ty) : a.read ⟨t, s.fill v⟩ = .ok ⟨s.ty, v⟩ :=
  h.read_ok (h.refill hs v)

end Lawful

/-- **A lawful access from the values of a type to those of another.** If it fails, then because a
value is missing. -/
structure Reaches (a : Access U) (t u : U.Ty) : Prop extends a.Lawful t where
  arrives {x : U.Val t} {s : Slot U (U.Val t)} (hs : a.borrow ⟨t, x⟩ = .ok s) : s.ty = u
  misses {x after : U.Val t} {f : Failure} (hf : a.borrow ⟨t, x⟩ = .error (f, after)) : f.IsMissing

/-- The access to a whole value is lawful. -/
theorem lawful_whole (t : U.Ty) : (whole (U := U)).Lawful t where
  read_ok hs := by
    obtain rfl := Except.ok.inj hs
    rfl
  read_error hf := nomatch hf
  kept hf := nomatch hf
  restore hs := by
    obtain rfl := Except.ok.inj hs
    rfl
  refill hs v := by
    obtain rfl := Except.ok.inj hs
    rfl

/-! ### Composition -/

/-- A composed borrow fails where one of the two does. The outer value is restored. -/
theorem comp_borrow_error {a b : Access U} {d : Dyn U} {f : Failure} {after : U.Val d.ty}
    (h : (a.comp b).borrow d = .error (f, after)) :
    a.borrow d = .error (f, after) ∨
      ∃ s content, a.borrow d = .ok s ∧ b.borrow s.dyn = .error (f, content) ∧
        after = s.fill content := by
  simp only [comp] at h
  cases ha : a.borrow d with
  | error e =>
      rw [ha] at h
      exact .inl h
  | ok s =>
      simp only [ha] at h
      cases hb : b.borrow s.dyn with
      | error e =>
          obtain ⟨g, content⟩ := e
          rw [hb] at h
          obtain ⟨rfl, rfl⟩ := Prod.mk.inj (Except.error.inj h)
          exact .inr ⟨s, content, rfl, hb, rfl⟩
      | ok part =>
          rw [hb] at h
          cases h

/-- A composed borrow gives a slot inside a slot. -/
theorem comp_borrow_ok {a b : Access U} {d : Dyn U} {slot : Slot U (U.Val d.ty)}
    (h : (a.comp b).borrow d = .ok slot) :
    ∃ s part, a.borrow d = .ok s ∧ b.borrow s.dyn = .ok part ∧ slot = part.map s.fill := by
  simp only [comp] at h
  cases ha : a.borrow d with
  | error e =>
      rw [ha] at h
      cases h
  | ok s =>
      simp only [ha] at h
      cases hb : b.borrow s.dyn with
      | error e =>
          rw [hb] at h
          cases h
      | ok part =>
          rw [hb] at h
          exact ⟨s, part, rfl, hb, (Except.ok.inj h).symm⟩

/-- A slot inside a slot is what a composed borrow gives. -/
theorem comp_borrow_of_ok {a b : Access U} {d : Dyn U} {s : Slot U (U.Val d.ty)}
    {part : Slot U (U.Val s.ty)} (ha : a.borrow d = .ok s) (hb : b.borrow s.dyn = .ok part) :
    (a.comp b).borrow d = .ok (part.map s.fill) := by
  have hb : b.borrow ⟨s.ty, s.content⟩ = .ok part := hb
  simp only [comp, ha, Slot.dyn, hb]
  rfl

/-- **Lawful accesses compose.** -/
theorem Lawful.comp {a b : Access U} {t : U.Ty} (ha : a.Lawful t)
    (hb : ∀ x s, a.borrow ⟨t, x⟩ = .ok s → b.Lawful s.ty) : (a.comp b).Lawful t where
  read_ok {x slot} hs := by
    obtain ⟨s, part, has, hbs, rfl⟩ := comp_borrow_ok hs
    have hread : (a.comp b).read ⟨t, x⟩ = (Except.ok s.dyn).bind b.read :=
      congrArg (Except.bind · b.read) (ha.read_ok has)
    rw [hread]
    exact (hb x s has).read_ok hbs
  read_error {x after f} hf := by
    rcases comp_borrow_error hf with haf | ⟨s, content, has, hbf, -⟩
    · exact congrArg (Except.bind · b.read) (ha.read_error haf)
    · have hread : (a.comp b).read ⟨t, x⟩ = (Except.ok s.dyn).bind b.read :=
        congrArg (Except.bind · b.read) (ha.read_ok has)
      rw [hread]
      exact (hb x s has).read_error hbf
  kept {x after f} hf := by
    rcases comp_borrow_error hf with haf | ⟨s, content, has, hbf, rfl⟩
    · exact ha.kept haf
    · rw [(hb x s has).kept hbf]
      exact ha.restore has
  restore {x slot} hs := by
    obtain ⟨s, part, has, hbs, rfl⟩ := comp_borrow_ok hs
    have hpart : part.restore = s.content := (hb x s has).restore hbs
    calc (part.map s.fill).restore = s.fill part.restore := rfl
      _ = s.fill s.content := by rw [hpart]
      _ = x := ha.restore has
  refill {x slot} hs v := by
    obtain ⟨s, part, has, hbs, rfl⟩ := comp_borrow_ok hs
    have houter : a.borrow ⟨t, s.fill (part.fill v)⟩ = .ok ⟨s.ty, part.fill v, s.fill⟩ :=
      ha.refill has (part.fill v)
    have hinner : b.borrow ⟨s.ty, part.fill v⟩ = .ok ⟨part.ty, v, part.fill⟩ :=
      (hb x s has).refill hbs v
    exact comp_borrow_of_ok houter hinner

/-- The access to a whole value stays at its type and misses nothing. -/
theorem reaches_whole (t : U.Ty) : (whole (U := U)).Reaches t t where
  toLawful := lawful_whole t
  arrives hs := by
    obtain rfl := Except.ok.inj hs
    rfl
  misses hf := nomatch hf

/-- **Accesses from type to type compose.** -/
theorem Reaches.comp {a b : Access U} {t u v : U.Ty} (ha : a.Reaches t u) (hb : b.Reaches u v) :
    (a.comp b).Reaches t v where
  toLawful := ha.toLawful.comp fun _ _ hs => (ha.arrives hs).symm ▸ hb.toLawful
  arrives hs := by
    obtain ⟨⟨s, content, fill⟩, part, has, hbs, rfl⟩ := comp_borrow_ok hs
    obtain rfl : s = u := ha.arrives has
    exact hb.arrives hbs
  misses hf := by
    rcases comp_borrow_error hf with haf | ⟨⟨s, content, fill⟩, after, has, hbf, -⟩
    · exact ha.misses haf
    · obtain rfl : s = u := ha.arrives has
      exact hb.misses hbf

/-! ### Members -/

/-- The access to a member. -/
def member (m : Member U) : Access U where
  read d :=
    match m.handles.read d with
    | none => .error (.foreignOwner m.name)
    | some v => .ok v
  borrow d :=
    match m.handles.readMut d with
    | none => .error (.foreignOwner m.name, d.val)
    | some s => .ok s

/-- A borrow of a member that addresses a component is a borrow of that component. -/
theorem member_borrow {m : Member U} {c : Component U m.owner m.value}
    (hc : r.Addresses m.handles.handles c) (hm : m.isTraversable = true) (x : U.Val m.owner) :
    (member m).borrow ⟨m.owner, x⟩ = .ok ⟨m.value, c.read x, c.replace x⟩ := by
  obtain ⟨borrow, hborrow⟩ := Option.isSome_iff_exists.1 hm
  have hread : m.handles.readMut ⟨m.owner, x⟩ = some ⟨m.value, (borrow x).1, (borrow x).2⟩ :=
    ErasedHandles.readMut_self hborrow x
  have hcomponent : borrow x = (c.read x, c.replace x) := hc.getMut hborrow x
  rw [hcomponent] at hread
  simp only [member, hread]

/-- **A member is a lawful access** to its owners, if it addresses a component and can be
borrowed. -/
theorem lawful_member {m : Member U} {c : Component U m.owner m.value}
    (hc : r.Addresses m.handles.handles c) (hm : m.isTraversable = true) :
    (member m).Lawful m.owner where
  read_ok {x s} hs := by
    have hread : m.handles.read ⟨m.owner, x⟩ = some ⟨m.value, m.handles.handles.get x⟩ :=
      m.handles.read_self x
    have hget : m.handles.handles.get x = c.read x := hc.get x
    rw [member_borrow hc hm] at hs
    obtain rfl := Except.ok.inj hs
    rw [hget] at hread
    simp only [member, hread]
    rfl
  read_error hf := by
    rw [member_borrow hc hm] at hf
    cases hf
  kept hf := by
    rw [member_borrow hc hm] at hf
    cases hf
  restore {x s} hs := by
    rw [member_borrow hc hm] at hs
    obtain rfl := Except.ok.inj hs
    exact c.replace_read x
  refill {x s} hs v := by
    rw [member_borrow hc hm] at hs
    obtain rfl := Except.ok.inj hs
    have hreplace : c.replace (c.replace x v) = c.replace x := funext (c.replace_replace x v)
    simp only [member_borrow hc hm, c.read_replace, hreplace]

/-- A member is an access from its owners to its values. -/
theorem reaches_member {m : Member U} {c : Component U m.owner m.value}
    (hc : r.Addresses m.handles.handles c) (hm : m.isTraversable = true) :
    (member m).Reaches m.owner m.value where
  toLawful := lawful_member hc hm
  arrives hs := by
    rw [member_borrow hc hm] at hs
    obtain rfl := Except.ok.inj hs
    rfl
  misses hf := by
    rw [member_borrow hc hm] at hf
    cases hf

/-! ### Wrappers -/

/-- The access to the content of a wrapper, which fails with `missing` if there is none. -/
def wrapper (missing : Failure) (w : Wrapper U) : Access U where
  read d :=
    match w.unwrap d with
    | none => .error missing
    | some e => .ok e
  borrow d :=
    match w.unwrapMut d with
    | none => .error (missing, d.val)
    | some s => .ok s

/-- A slot of the content of a wrapper is one that the wrapper gives. -/
theorem unwrapMut_of_wrapper_borrow {missing : Failure} {w : Wrapper U} {d : Dyn U}
    {s : Slot U (U.Val d.ty)} (h : (wrapper missing w).borrow d = .ok s) :
    w.unwrapMut d = some s := by
  simp only [wrapper] at h
  cases hs : w.unwrapMut d with
  | none => simp only [hs, reduceCtorEq] at h
  | some s' =>
      simp only [hs, Except.ok.injEq] at h
      exact congrArg some h

/-- A content of a wrapper that cannot be borrowed is missing. -/
theorem unwrapMut_of_wrapper_error {missing f : Failure} {w : Wrapper U} {d : Dyn U}
    {after : U.Val d.ty} (h : (wrapper missing w).borrow d = .error (f, after)) :
    w.unwrapMut d = none ∧ f = missing ∧ after = d.val := by
  simp only [wrapper] at h
  cases hs : w.unwrapMut d with
  | none =>
      simp only [hs, Except.error.injEq, Prod.mk.injEq] at h
      exact ⟨rfl, h.1.symm, h.2.symm⟩
  | some s => simp only [hs, reduceCtorEq] at h

/-- **A lawful wrapper is a lawful access** to its content. -/
theorem lawful_wrapper {w : Wrapper U} {t : U.Ty} (hw : w.Lawful t) (missing : Failure) :
    (wrapper missing w).Lawful t where
  read_ok {x s} hs := by
    have hread : w.unwrap ⟨t, x⟩ = some s.dyn := by
      rw [hw.unwrap, unwrapMut_of_wrapper_borrow hs, Option.map_some]
    simp only [wrapper, hread]
  read_error {x after f} hf := by
    obtain ⟨hnone, rfl, -⟩ := unwrapMut_of_wrapper_error hf
    have hread : w.unwrap ⟨t, x⟩ = none := by rw [hw.unwrap, hnone, Option.map_none]
    simp only [wrapper, hread]
  kept hf := (unwrapMut_of_wrapper_error hf).2.2
  restore hs := hw.restore (unwrapMut_of_wrapper_borrow hs)
  refill hs v := by
    have hrefill := hw.refill (unwrapMut_of_wrapper_borrow hs) v
    simp only [wrapper, hrefill]

/-- The access through wrappers, outermost first. -/
def wrappers (missing : Failure) : List (Wrapper U) → Access U
  | [] => whole
  | w :: ws => (wrapper missing w).comp (wrappers missing ws)

/-- Reading through wrappers is opening them all. -/
theorem wrappers_read (missing : Failure) (ws : List (Wrapper U)) (d : Dyn U) :
    (wrappers missing ws).read d =
      match Wrapper.openAll ws d with
      | none => .error missing
      | some e => .ok e := by
  induction ws generalizing d with
  | nil => rfl
  | cons w ws ih =>
      simp only [wrappers, comp, wrapper, Wrapper.openAll]
      cases w.unwrap d with
      | none => rfl
      | some e => exact ih e

/-- Borrowing through wrappers is opening them all for a borrow. -/
theorem wrappers_borrow (missing : Failure) (ws : List (Wrapper U)) (d : Dyn U) :
    (wrappers missing ws).borrow d =
      match Wrapper.openAllMut ws d with
      | .error content => .error (missing, content)
      | .ok s => .ok s := by
  induction ws generalizing d with
  | nil => rfl
  | cons w ws ih =>
      simp only [wrappers, comp, wrapper, Wrapper.openAllMut]
      cases w.unwrapMut d with
      | none => rfl
      | some inner =>
          simp only [ih]
          cases Wrapper.openAllMut ws inner.dyn with
          | error content => rfl
          | ok part => rfl

/-- A slot behind wrappers is what opening them all for a borrow gives. -/
theorem openAllMut_of_wrappers_borrow {missing : Failure} {ws : List (Wrapper U)} {d : Dyn U}
    {s : Slot U (U.Val d.ty)} (h : (wrappers missing ws).borrow d = .ok s) :
    Wrapper.openAllMut ws d = .ok s := by
  rw [wrappers_borrow] at h
  cases hopen : Wrapper.openAllMut ws d with
  | error content => simp only [hopen, reduceCtorEq] at h
  | ok s' =>
      simp only [hopen, Except.ok.injEq] at h
      exact congrArg Except.ok h

end Access

/-- **A wrapper is an access** to values of its target, in a registry of lawful descriptions. -/
theorem Registry.LawfulInfos.reaches_wrapper (hr : r.LawfulInfos) {t : U.Ty} {w : Wrapper U}
    (hw : (r.info t).wrapper? = some w) {missing : Failure} (hmissing : missing.IsMissing) :
    (Access.wrapper missing w).Reaches t w.target where
  toLawful := Access.lawful_wrapper (hr.opens hw) missing
  arrives {x _} hs := hr.unwrapMut_target hw x (Access.unwrapMut_of_wrapper_borrow hs)
  misses hf := (Access.unwrapMut_of_wrapper_error hf).2.1 ▸ hmissing

/-- **Wrappers on the way from a type to another are an access** between the two, in a registry of
lawful descriptions. -/
theorem Registry.Enters.reaches_wrappers (hr : r.LawfulInfos) {t u : U.Ty} {ws : List (Wrapper U)}
    (h : r.Enters t ws u) {missing : Failure} (hmissing : missing.IsMissing) :
    (Access.wrappers missing ws).Reaches t u := by
  induction h with
  | nil => exact Access.reaches_whole _
  | cons hw _ ih => exact (hr.reaches_wrapper hw hmissing).comp ih

/-! ### Walks -/

namespace Access

/-- **The access of a walk:** each step goes to a member and through the wrappers after it. -/
def walk : List (Step U) → Access U
  | [] => whole
  | s :: more => (member s.member).comp ((wrappers s.missing s.unwraps).comp (walk more))

/-- Reading on a walk is reading through its steps. -/
theorem walk_read (steps : List (Step U)) (d : Dyn U) :
    (walk steps).read d = Chain.readSteps steps d := by
  induction steps generalizing d with
  | nil => rfl
  | cons s more ih =>
      simp only [walk, comp, member, Chain.readSteps]
      cases s.member.handles.read d with
      | none => rfl
      | some v =>
          simp only [Except.bind, wrappers_read]
          cases Wrapper.openAll s.unwraps v with
          | none => rfl
          | some inner => exact ih inner

/-- Borrowing on a walk is borrowing through its steps. -/
theorem walk_borrow (steps : List (Step U)) (d : Dyn U) :
    (walk steps).borrow d = Chain.readMutSteps steps d := by
  induction steps generalizing d with
  | nil => rfl
  | cons s more ih =>
      simp only [walk, comp, member, Chain.readMutSteps]
      cases s.member.handles.readMut d with
      | none => rfl
      | some part =>
          simp only [wrappers_borrow]
          cases Wrapper.openAllMut s.unwraps part.dyn with
          | error content => rfl
          | ok inner =>
              simp only [ih]
              cases Chain.readMutSteps more inner.dyn with
              | error e => rfl
              | ok slot => rfl

end Access

/-- **A walk along members reaches the type that they lead to,** in a registry of lawful
descriptions, if each member belongs to the type that lists it and can be borrowed; and so does what
comes after them. -/
theorem Registry.Leads.reaches_walk_append (hr : r.LawfulInfos) {t u v : U.Ty}
    {ds : List (Descriptor U)} (h : r.Leads t ds u)
    (howns : ∀ d ∈ ds, r.Owns d.member.owner d.member)
    (hmut : ∀ d ∈ ds, d.member.isTraversable = true) (index : Nat) {more : List (Step U)}
    (hmore : (Access.walk more).Reaches u v) :
    (Access.walk (Chain.stepsFrom index ds ++ more)).Reaches t v := by
  induction h generalizing index with
  | nil => exact hmore
  | @cons _ _ _ d _ howner hcross _ ih =>
      obtain ⟨hown, howns⟩ := List.forall_mem_cons.1 howns
      obtain ⟨hstep, hmut⟩ := List.forall_mem_cons.1 hmut
      obtain ⟨c, hc⟩ := hr.addresses hown
      subst howner
      have hwrappers := (hcross.enters hr.toWellTyped).reaches_wrappers hr
        (Step.isMissing_missing (d.step index))
      exact (Access.reaches_member hc hstep).comp
        (hwrappers.comp (ih howns hmut (index + 1) hmore))

/-- A walk along members is a lawful access. -/
theorem Registry.Leads.lawful_walk (hr : r.LawfulInfos) {t u : U.Ty} {ds : List (Descriptor U)}
    (h : r.Leads t ds u) (howns : ∀ d ∈ ds, r.Owns d.member.owner d.member)
    (hmut : ∀ d ∈ ds, d.member.isTraversable = true) (index : Nat) :
    (Access.walk (Chain.stepsFrom index ds)).Lawful t := by
  have hreaches : (Access.walk (Chain.stepsFrom index ds ++ [])).Reaches t u :=
    h.reaches_walk_append hr howns hmut index (Access.reaches_whole u)
  rw [List.append_nil] at hreaches
  exact hreaches.toLawful

end MemberAccess
