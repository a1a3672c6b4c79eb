import MemberAccess.Proofs.Accessor.Write
import MemberAccess.Proofs.Objects.Layout

/-!
# Accessors that diverge do not interfere

Two paths diverge if they go through the same cells up to some owner and address different cells
there. Whatever the members are called, the walks to that owner arrive at the same slot. From there
on, each accessor acts on its own cell alone: what it reads, what becomes of the cell, whether it
succeeds and what it adds to the log is told by the content of the cell. So neither sees the other.

## Main definitions

* `Work`: what an accessor does from some value on, `Work.behind` the work behind an access.
* `Work.ActsIn`: a work that reads and writes one cell.
* `Access.Alike`: accesses that arrive at the same slots.

## Main results

* `Path.exists_rest`: an accessor is a walk to an owner and a work in one of its cells.
* `Layouts.alike_walk`: walks through the same cells arrive at the same slots.
* `Registry.diverging_accessors_commute`: accessors of diverging paths do not interfere.
-/

namespace MemberAccess

variable {U : Universe} {r : Registry U} {p q : Path U} {T O V W C C' : U.Ty}

/-! ### Works -/

/-- **A work:** what an accessor reads and writes from some value on. -/
@[ext]
structure Work (U : Universe) (V : U.Ty) where
  get : Dyn U → Except Failure (Dyn U)
  set : (d : Dyn U) → U.Val V → Except Failure Unit × U.Val d.ty

namespace Work

/-- **A work behind an access** is done where the access arrives. -/
def behind (a : Access U) (f : Work U V) : Work U V where
  get d := (a.read d).bind f.get
  set d v :=
    match a.borrow d with
    | .error (failure, after) => (.error failure, after)
    | .ok s => ((f.set s.dyn v).1, s.fill (f.set s.dyn v).2)

/-- A work behind one access after another is behind the second, and that behind the first. -/
theorem behind_comp (a b : Access U) (f : Work U V) :
    behind (a.comp b) f = behind a (behind b f) := by
  refine Work.ext (funext fun d => ?_) (funext fun d => funext fun v => ?_)
  · simp only [behind, Access.comp]
    cases a.read d <;> rfl
  · simp only [behind, Access.comp]
    cases a.borrow d with
    | error e => rfl
    | ok s =>
        simp only
        cases b.borrow s.dyn <;> rfl

/-- A work behind a walk of two runs is behind the second, and that behind the first. -/
theorem behind_walk_append (xs ys : List (Step U)) (f : Work U V) :
    behind (.walk (xs ++ ys)) f = behind (.walk xs) (behind (.walk ys) f) := by
  induction xs with
  | nil => rfl
  | cons s more ih => simp only [List.cons_append, Access.walk, behind_comp, ih]

/-- Behind a lawful access that arrives, a work is done on the content of the slot. -/
theorem behind_of_borrow_ok {a : Access U} (ha : a.Lawful T) {x : U.Val T} {o : U.Val O}
    {fill : U.Val O → U.Val T} (hs : a.borrow ⟨T, x⟩ = .ok ⟨O, o, fill⟩) (f : Work U V) :
    (behind a f).get ⟨T, x⟩ = f.get ⟨O, o⟩ ∧
      ∀ v, (behind a f).set ⟨T, x⟩ v = ((f.set ⟨O, o⟩ v).1, fill (f.set ⟨O, o⟩ v).2) := by
  refine ⟨?_, fun v => ?_⟩
  · simp only [behind, ha.read_ok hs]
    rfl
  · simp only [behind, hs, Slot.dyn_mk]

/-- Behind a lawful access that fails, a work fails and changes nothing. -/
theorem behind_of_borrow_error {a : Access U} (ha : a.Lawful T) {x after : U.Val T} {e : Failure}
    (he : a.borrow ⟨T, x⟩ = .error (e, after)) (f : Work U V) :
    (behind a f).get ⟨T, x⟩ = .error e ∧ ∀ v, (behind a f).set ⟨T, x⟩ v = (.error e, x) := by
  obtain rfl := ha.kept he
  refine ⟨?_, fun v => ?_⟩
  · simp only [behind, ha.read_error he]
    rfl
  · simp only [behind, he]

/-! ### Works in one cell -/

/-- **A work in one cell** of the values of a type: its content tells what is read, whether a write
succeeds, and what the write does to the cell and to the log. -/
structure ActsIn (f : Work U V) (L : Layout U O) (i : L.Cell C) : Prop where
  get {o o' : U.Val O} (h : (L.cell i).read o = (L.cell i).read o') :
    f.get ⟨O, o⟩ = f.get ⟨O, o'⟩
  outcome {o o' : U.Val O} (h : (L.cell i).read o = (L.cell i).read o') (v : U.Val V) :
    (f.set ⟨O, o⟩ v).1 = (f.set ⟨O, o'⟩ v).1
  acts (v : U.Val V) : ∃ content note, ∀ o, L.Acts i content note o (f.set ⟨O, o⟩ v).2

/-- **A work in one cell does not see what a work in another does.** -/
theorem ActsIn.unseen {f : Work U V} {g : Work U W} {L : Layout U O} {i : L.Cell C}
    {j : L.Cell C'} (hf : f.ActsIn L i) (hg : g.ActsIn L j)
    (hne : (⟨C, i⟩ : (X : U.Ty) × L.Cell X) ≠ ⟨C', j⟩) (o : U.Val O) (v : U.Val V) :
    g.get ⟨O, (f.set ⟨O, o⟩ v).2⟩ = g.get ⟨O, o⟩ ∧
      ∀ w, (g.set ⟨O, (f.set ⟨O, o⟩ v).2⟩ w).1 = (g.set ⟨O, o⟩ w).1 := by
  obtain ⟨content, note, hacts⟩ := hf.acts v
  have hread := (hacts o).read_of_ne hne
  exact ⟨hg.get hread, hg.outcome hread⟩

/-- **Works in different cells can be done in either order,** but for the order of the entries of
the log. -/
theorem ActsIn.reordered {f : Work U V} {g : Work U W} {L : Layout U O} {i : L.Cell C}
    {j : L.Cell C'} (hf : f.ActsIn L i) (hg : g.ActsIn L j)
    (hne : (⟨C, i⟩ : (X : U.Ty) × L.Cell X) ≠ ⟨C', j⟩) (o : U.Val O) (v : U.Val V) (w : U.Val W) :
    L.Reordered (g.set ⟨O, (f.set ⟨O, o⟩ v).2⟩ w).2 (f.set ⟨O, (g.set ⟨O, o⟩ w).2⟩ v).2 := by
  obtain ⟨content, note, hf⟩ := hf.acts v
  obtain ⟨content', note', hg⟩ := hg.acts w
  exact (hf o).reordered (hg _) (hg o) (hf _) hne

/-- **What is done behind a member is done in its cell.** -/
theorem actsIn_behind_member {L : Layout U O} {i : L.Cell C} {m : Member U} {h : Handles U O C}
    (hm : m.handles = ⟨O, C, h⟩) (hi : L.Addresses h i) (hmut : m.isTraversable = true)
    (f : Work U V) : (behind (.member m) f).ActsIn L i := by
  obtain ⟨name, kind, accessibility, handles⟩ := m
  obtain rfl : handles = ⟨O, C, h⟩ := hm
  obtain ⟨borrow, hborrow⟩ := Option.isSome_iff_exists.1 hmut
  have hget : ∀ o, (behind (.member ⟨name, kind, accessibility, ⟨O, C, h⟩⟩) f).get ⟨O, o⟩ =
      f.get ⟨C, (L.cell i).read o⟩ := by
    intro o
    have hread : ErasedHandles.read ⟨O, C, h⟩ ⟨O, o⟩ = some ⟨C, h.get o⟩ :=
      ErasedHandles.read_self ⟨O, C, h⟩ o
    simp only [behind, Access.member, hread, hi.get]
    rfl
  have hset : ∀ o v, (behind (.member ⟨name, kind, accessibility, ⟨O, C, h⟩⟩) f).set ⟨O, o⟩ v =
      ((f.set ⟨C, (L.cell i).read o⟩ v).1,
        (L.cell i).replace o (f.set ⟨C, (L.cell i).read o⟩ v).2) := by
    intro o v
    have hslot : ErasedHandles.readMut ⟨O, C, h⟩ ⟨O, o⟩ =
        some ⟨C, (borrow o).1, (borrow o).2⟩ :=
      ErasedHandles.readMut_self (h := ⟨O, C, h⟩) hborrow o
    rw [hi.getMut hborrow] at hslot
    simp only [behind, Access.member, hslot, Slot.dyn_mk]
  refine ⟨fun h => ?_, fun h v => ?_, fun v => ?_⟩
  · rw [hget, hget, h]
  · rw [hset, hset, h]
  · refine ⟨fun content => (f.set ⟨C, content⟩ v).2, fun _ => [], fun o => ?_⟩
    rw [hset]
    exact L.acts_replace i _ o

/-! ### Assigning the last member -/

/-- The work of assigning a member of the type `V`. -/
def assigning (V : U.Ty) (a : Assign U) : Work U V where
  get d := (Access.member a.member).read d
  set d v := a.perform d v

end Work

/-- An assignment that its member has the handles for. -/
def Assign.Ready : Assign U → Prop
  | slot m => m.isTraversable = true
  | setter m => m.isWritable = true

/-- An assignment succeeds, puts the value into the cell of its member, and may add entries to the
log. -/
theorem Assign.Ready.exists_acts {L : Layout U O} {i : L.Cell V} {a : Assign U}
    {h : Handles U O V} (ha : a.Ready) (hm : a.member.handles = ⟨O, V, h⟩) (hi : L.Addresses h i) :
    ∃ note : U.Val V → U.Val V → List L.Entry, ∀ o v, (a.perform ⟨O, o⟩ v).1 = .ok () ∧
      L.Acts i (fun _ => v) (fun content => note content v) o (a.perform ⟨O, o⟩ v).2 := by
  cases a with
  | slot m =>
      have hm : m.handles = ⟨O, V, h⟩ := hm
      refine ⟨fun _ _ => [], fun o v => ?_⟩
      obtain ⟨borrow, hborrow, hperform⟩ := Assign.perform_slot_of_handles hm ha o v
      rw [hperform, hi.getMut hborrow]
      exact ⟨rfl, L.acts_replace i _ o⟩
  | setter m =>
      have hm : m.handles = ⟨O, V, h⟩ := hm
      have hset : h.set.isSome = true := by
        have hwritable : m.handles.hasSet = true := ha
        rw [hm] at hwritable
        exact hwritable
      obtain ⟨store, hstore⟩ := Option.isSome_iff_exists.1 hset
      obtain ⟨note, hnote⟩ := hi.set hstore
      refine ⟨note, fun o v => ?_⟩
      obtain ⟨store', hstore', hperform⟩ := Assign.perform_setter_of_handles hm ha o v
      obtain rfl := Option.some.inj (hstore.symm.trans hstore')
      rw [hperform]
      exact ⟨rfl, hnote o v⟩

/-- **Assigning a member is done in its cell.** -/
theorem Work.actsIn_assigning {L : Layout U O} {i : L.Cell V} {a : Assign U} {h : Handles U O V}
    (ha : a.Ready) (hm : a.member.handles = ⟨O, V, h⟩) (hi : L.Addresses h i) :
    (assigning V a).ActsIn L i := by
  have hget : ∀ o, (assigning V a).get ⟨O, o⟩ = .ok ⟨V, (L.cell i).read o⟩ := by
    intro o
    have hread : a.member.handles.read ⟨O, o⟩ = some ⟨V, h.get o⟩ := by
      rw [hm]
      exact ErasedHandles.read_self ⟨O, V, h⟩ o
    simp only [assigning, Access.member, hread, hi.get]
  obtain ⟨note, hset⟩ := ha.exists_acts hm hi
  refine ⟨fun h => ?_, fun _ v => ?_, fun v => ⟨_, _, fun o => (hset o v).2⟩⟩
  · rw [hget, hget, h]
  · exact (hset _ v).1.trans (hset _ v).1.symm

/-! ### Accessors -/

/-- **A compiled accessor is the work of assigning the last member,** behind the access to its
owner. -/
theorem Compiler.exists_assigning {c : Compiler} {a : Accessor U T V}
    (ha : (c.compile T V p).value = .ok a) (hp : p.terminal.unwraps = []) :
    ∃ s : Assign U, s.member = p.terminal.member ∧ s.Ready ∧ ∀ x,
      (a.get x).map (Dyn.mk V) = (Work.behind p.ownerAccess (Work.assigning V s)).get ⟨T, x⟩ ∧
        ∀ v, a.set x v = (Work.behind p.ownerAccess (Work.assigning V s)).set ⟨T, x⟩ v := by
  have hget : ∀ (s : Assign U), s.member = p.terminal.member → ∀ x,
      (a.get x).map (Dyn.mk V) =
        (Work.behind p.ownerAccess (Work.assigning V s)).get ⟨T, x⟩ := by
    intro s hs x
    have hlast : Chain.readSteps (Chain.stepsFrom (0 + p.parents.length) [p.terminal]) =
        (Work.assigning V s).get := by
      funext d
      cases hread : p.terminal.member.handles.read d <;>
        simp only [Chain.stepsFrom, Chain.readSteps, Descriptor.step, hp, Wrapper.openAll,
          Work.assigning, Access.member, hs, hread]
    rw [← Path.CompilesTo.readSteps_members (.policy c ha) hp, ← p.parents_append_terminal,
      Chain.stepsFrom_append, Chain.readSteps_append, hlast, ← Path.ownerAccess_read]
    rfl
  obtain ⟨-, -, s, hsetter, rfl⟩ := Compiler.compile_cases ha
  obtain ⟨hwritable, ⟨set, -, htyped, rfl⟩ | ⟨-, rfl, -⟩⟩ := Compiler.setter_cases hsetter
  · refine ⟨.setter p.terminal.member, rfl, hwritable, fun x => ⟨hget _ rfl x, fun v => ?_⟩⟩
    obtain ⟨k, hk, hset⟩ := Option.bind_eq_some_iff.1 htyped
    obtain ⟨hparents, hk⟩ := Path.typed?_cases hk
    obtain ⟨store, hstore, hperform⟩ :=
      Assign.perform_setter_of_handles (ErasedHandles.eq_of_typed? hk) hwritable x v
    obtain rfl := Option.some.inj (hset.symm.trans hstore)
    rw [Path.ownerAccess, hparents]
    exact hperform.symm
  · have hassign : p.assign.member = p.terminal.member ∧ p.assign.Ready := by
      rw [Path.assign]
      by_cases hslot : p.terminal.member.kind = .field ∧ p.terminal.member.isTraversable = true
      · rw [if_pos hslot]
        exact ⟨rfl, hslot.2⟩
      · rw [if_neg hslot]
        exact ⟨rfl, hwritable⟩
    refine ⟨p.assign, hassign.1, hassign.2, fun x => ⟨hget _ hassign.1 x, fun v => ?_⟩⟩
    simp only [Accessor.set, Setter.set, p.readMut_parents, Work.behind]
    cases p.ownerAccess.borrow ⟨T, x⟩ <;> rfl

/-! ### Walks through the same cells -/

namespace Access

/-- An access to the values of `t` that arrives at values of `u` only. -/
def ArrivesAt (a : Access U) (t u : U.Ty) : Prop :=
  ∀ (x : U.Val t) (s : Slot U (U.Val t)), a.borrow ⟨t, x⟩ = .ok s → s.ty = u

/-- **Accesses that arrive at the same slots.** Where they fail, they may tell different reasons. -/
def Alike (a b : Access U) (t : U.Ty) : Prop :=
  ∀ (x : U.Val t) (s : Slot U (U.Val t)), a.borrow ⟨t, x⟩ = .ok s ↔ b.borrow ⟨t, x⟩ = .ok s

/-- Being alike does not depend on the order. -/
theorem Alike.symm {a b : Access U} {t : U.Ty} (h : a.Alike b t) : b.Alike a t :=
  fun x s => (h x s).symm

/-- Accesses that arrive at the same slots compose. -/
theorem Alike.comp {a b a' b' : Access U} {t : U.Ty} (ha : a.Alike a' t)
    (hb : ∀ x s, a.borrow ⟨t, x⟩ = .ok s → b.Alike b' s.ty) : (a.comp b).Alike (a'.comp b') t := by
  intro x slot
  constructor
  · intro h
    obtain ⟨s, part, hs, hpart, rfl⟩ := comp_borrow_ok h
    exact comp_borrow_of_ok ((ha x s).1 hs) ((hb x s hs s.content part).1 hpart)
  · intro h
    obtain ⟨s, part, hs, hpart, rfl⟩ := comp_borrow_ok h
    have hs := (ha x s).2 hs
    exact comp_borrow_of_ok hs ((hb x s hs s.content part).2 hpart)

/-- A borrow of a member that addresses a cell is a borrow of the cell. -/
theorem member_borrow_cell {L : Layout U O} {i : L.Cell V} {m : Member U} {h : Handles U O V}
    (hm : m.handles = ⟨O, V, h⟩) (hi : L.Addresses h i) (hmut : m.isTraversable = true)
    (x : U.Val O) :
    (member m).borrow ⟨O, x⟩ = .ok ⟨V, (L.cell i).read x, (L.cell i).replace x⟩ := by
  obtain ⟨name, kind, accessibility, handles⟩ := m
  obtain rfl : handles = ⟨O, V, h⟩ := hm
  obtain ⟨borrow, hborrow⟩ := Option.isSome_iff_exists.1 hmut
  have hslot : ErasedHandles.readMut ⟨O, V, h⟩ ⟨O, x⟩ = some ⟨V, (borrow x).1, (borrow x).2⟩ :=
    ErasedHandles.readMut_self (h := ⟨O, V, h⟩) hborrow x
  rw [hi.getMut hborrow] at hslot
  simp only [member, hslot]

/-- Wrappers are opened alike, whatever is told where one is empty. -/
theorem alike_wrappers (missing missing' : Failure) (ws : List (Wrapper U)) (t : U.Ty) :
    (wrappers missing ws).Alike (wrappers missing' ws) t := by
  intro x s
  rw [wrappers_borrow, wrappers_borrow]
  cases Wrapper.openAllMut ws ⟨t, x⟩ with
  | error content => simp only [reduceCtorEq]
  | ok s' => rfl

end Access

/-- **Walks through the same cells arrive at the same slots,** in a well-typed registry, if the
members can be borrowed. -/
theorem Layouts.alike_walk (hr : r.WellTyped) {L : Layouts U} {ds es : List (Descriptor U)}
    (h : List.Forall₂ L.SameCell ds es) {t u u' : U.Ty} (hds : r.Leads t ds u)
    (hes : r.Leads t es u') (hmut : ∀ d ∈ ds, d.member.isTraversable = true)
    (hmut' : ∀ e ∈ es, e.member.isTraversable = true) (index : Nat) :
    (Access.walk (Chain.stepsFrom index ds)).Alike (.walk (Chain.stepsFrom index es)) t := by
  induction h generalizing t index with
  | nil => exact fun x s => Iff.rfl
  | @cons d e ds es hsame _ ih =>
      obtain @⟨O, V, h, k, i, hd, he, hi, hk⟩ := hsame
      obtain ⟨howner, s, hcross, hmore⟩ := hds.cons_inv
      obtain ⟨-, s', hcross', hmore'⟩ := hes.cons_inv
      obtain ⟨hd', hmut⟩ := List.forall_mem_cons.1 hmut
      obtain ⟨he', hmut'⟩ := List.forall_mem_cons.1 hmut'
      obtain rfl : O = t := by rw [← howner, Member.owner, hd]
      have hvalue : d.member.value = V := by rw [Member.value, hd]
      have hvalue' : e.member.value = V := by rw [Member.value, he]
      rw [hvalue] at hcross
      rw [hvalue'] at hcross'
      -- The wrappers are told by the type of the cell, and so is the type inside them.
      obtain ⟨hws, hinfo⟩ := hcross.unique hcross'
      obtain rfl := hr.ty_eq_of_info_eq hinfo
      have hborrow := Access.member_borrow_cell hd hi hd'
      refine Access.Alike.comp (fun x part => ?_) fun x part hpart => ?_
      · simp only [Descriptor.step]
        rw [hborrow, Access.member_borrow_cell he hk he']
      · simp only [Descriptor.step] at hpart ⊢
        rw [hborrow] at hpart
        obtain rfl := Except.ok.inj hpart
        refine Access.Alike.comp (hws ▸ Access.alike_wrappers _ _ _ _) fun y inner hinner => ?_
        have hopen := Access.openAllMut_of_wrappers_borrow hinner
        have hs : inner.ty = s := hr.ty_eq_of_info_eq (hcross.openAllMut hr hopen)
        exact hs ▸ ih hmore hmore' hmut hmut' (index + 1)

/-- A walk along members that lead to a type arrives at values of it. -/
theorem Registry.Leads.arrivesAt (hr : r.WellTyped) {t u : U.Ty} {ds : List (Descriptor U)}
    (h : r.Leads t ds u) (hmut : ∀ d ∈ ds, d.member.isTraversable = true) :
    (Access.walk (Chain.stepsFrom 0 ds)).ArrivesAt t u := by
  intro x s hs
  rw [Access.walk_borrow] at hs
  rcases h.readMutSteps hr hmut (d := ⟨t, x⟩) rfl 0 with ⟨s', hs', hty⟩ | ⟨f, after, hf, -⟩
  · obtain rfl := Except.ok.inj (hs.symm.trans hs')
    exact hty
  · cases hs.symm.trans hf

/-! ### Paths that diverge -/

/-- **What is done at the end of a path is done in the cell of each member** that it goes through,
behind the walk to the owner of that member. -/
theorem Path.exists_rest {a : Assign U} (ha : a.member = p.terminal.member) (hready : a.Ready)
    (hmut : ∀ d ∈ p.parents, d.member.isTraversable = true) {front more : List (Descriptor U)}
    {d : Descriptor U} (hmembers : p.members = front ++ d :: more) {L : Layout U O} {i : L.Cell C}
    {h : Handles U O C} (hd : d.member.handles = ⟨O, C, h⟩) (hi : L.Addresses h i) :
    ∃ rest : Work U p.value, rest.ActsIn L i ∧
      Work.behind p.ownerAccess (Work.assigning p.value a) =
        Work.behind (.walk (Chain.stepsFrom 0 front)) rest := by
  rcases Path.member_cases hmembers with ⟨hparents, hterminal⟩ | ⟨more', hparents⟩
  · obtain rfl : p.value = C := by rw [Path.value, hterminal, Member.value, hd]
    refine ⟨_, Work.actsIn_assigning hready ?_ hi, ?_⟩
    · rw [ha, hterminal, hd]
    · rw [Path.ownerAccess, hparents]
  · have hmem : d.member.isTraversable = true := by
      refine hmut d ?_
      rw [hparents]
      exact List.mem_append_right _ List.mem_cons_self
    have hsplit : Work.behind p.ownerAccess (Work.assigning p.value a) =
        Work.behind (.walk (Chain.stepsFrom 0 front)) (Work.behind (.member d.member)
          (Work.behind ((Access.wrappers (d.step (0 + front.length)).missing d.unwraps).comp
            (.walk (Chain.stepsFrom (0 + front.length + 1) more')))
              (Work.assigning p.value a))) := by
      rw [Path.ownerAccess, hparents, Chain.stepsFrom_append, Work.behind_walk_append,
        Chain.stepsFrom, Access.walk, Work.behind_comp]
      rfl
    exact ⟨_, Work.actsIn_behind_member hd hi hmem _, hsplit⟩

/-! ### Works behind walks through the same cells -/

namespace Work

variable {a b : Access U} {f : Work U V} {g : Work U W} {L : Layout U O} {i : L.Cell C}
  {j : L.Cell C'}

/-- **A work behind an access does not see what a work in another cell does** behind an access that
arrives at the same slots. -/
theorem ActsIn.unseen_behind (hf : f.ActsIn L i) (hg : g.ActsIn L j)
    (hne : (⟨C, i⟩ : (X : U.Ty) × L.Cell X) ≠ ⟨C', j⟩) (ha : a.Lawful T) (hb : b.Lawful T)
    (halike : a.Alike b T) (harrive : a.ArrivesAt T O) (x : U.Val T) (v : U.Val V) :
    (behind b g).get ⟨T, ((behind a f).set ⟨T, x⟩ v).2⟩ = (behind b g).get ⟨T, x⟩ ∧
      ∀ w, ((behind b g).set ⟨T, ((behind a f).set ⟨T, x⟩ v).2⟩ w).1 =
        ((behind b g).set ⟨T, x⟩ w).1 := by
  cases hborrow : a.borrow ⟨T, x⟩ with
  | error failed =>
      obtain ⟨e, after⟩ := failed
      rw [(behind_of_borrow_error ha hborrow f).2 v]
      exact ⟨rfl, fun _ => rfl⟩
  | ok s =>
      obtain ⟨t, o, fill⟩ := s
      obtain rfl : t = O := harrive x _ hborrow
      have hborrow' : b.borrow ⟨T, x⟩ = .ok ⟨t, o, fill⟩ := (halike x _).1 hborrow
      rw [(behind_of_borrow_ok ha hborrow f).2 v]
      obtain ⟨hget, hset⟩ := behind_of_borrow_ok hb hborrow' g
      obtain ⟨hget', hset'⟩ := behind_of_borrow_ok hb (hb.refill hborrow' (f.set ⟨t, o⟩ v).2) g
      obtain ⟨hread, houtcome⟩ := hf.unseen hg hne o v
      refine ⟨(hget'.trans hread).trans hget.symm, fun w => ?_⟩
      rw [hset', hset]
      exact houtcome w

/-- **Works in different cells can be done in either order,** behind accesses that arrive at the
same slots, but for the order of the entries of the log of the owner there. -/
theorem ActsIn.reordered_behind (hf : f.ActsIn L i) (hg : g.ActsIn L j)
    (hne : (⟨C, i⟩ : (X : U.Ty) × L.Cell X) ≠ ⟨C', j⟩) (ha : a.Lawful T) (hb : b.Lawful T)
    (halike : a.Alike b T) (harrive : a.ArrivesAt T O) (x : U.Val T) (v : U.Val V) (w : U.Val W) :
    ((behind b g).set ⟨T, ((behind a f).set ⟨T, x⟩ v).2⟩ w).2 =
        ((behind a f).set ⟨T, ((behind b g).set ⟨T, x⟩ w).2⟩ v).2 ∨
      ∃ o fill y z, a.borrow ⟨T, x⟩ = .ok ⟨O, o, fill⟩ ∧ L.Reordered y z ∧
        ((behind b g).set ⟨T, ((behind a f).set ⟨T, x⟩ v).2⟩ w).2 = fill y ∧
        ((behind a f).set ⟨T, ((behind b g).set ⟨T, x⟩ w).2⟩ v).2 = fill z := by
  cases hborrow : a.borrow ⟨T, x⟩ with
  | error failed =>
      obtain ⟨e, after⟩ := failed
      cases hborrow' : b.borrow ⟨T, x⟩ with
      | error failed' =>
          obtain ⟨e', after'⟩ := failed'
          rw [(behind_of_borrow_error ha hborrow f).2 v, (behind_of_borrow_error hb hborrow' g).2 w,
            (behind_of_borrow_error ha hborrow f).2 v]
          exact .inl rfl
      | ok s => cases hborrow.symm.trans ((halike x s).2 hborrow')
  | ok s =>
      obtain ⟨t, o, fill⟩ := s
      obtain rfl : t = O := harrive x _ hborrow
      have hborrow' : b.borrow ⟨T, x⟩ = .ok ⟨t, o, fill⟩ := (halike x _).1 hborrow
      have hfirst := hb.refill hborrow' (f.set ⟨t, o⟩ v).2
      have hsecond := ha.refill hborrow (g.set ⟨t, o⟩ w).2
      refine .inr ⟨o, fill, _, _, rfl, hf.reordered hg hne o v w, ?_, ?_⟩
      · rw [(behind_of_borrow_ok ha hborrow f).2 v, (behind_of_borrow_ok hb hfirst g).2 w]
      · rw [(behind_of_borrow_ok hb hborrow' g).2 w, (behind_of_borrow_ok ha hsecond f).2 v]

end Work

/-! ### Compiled accessors -/

/-- The members of a path that was parsed belong to the types that list them. -/
theorem Registry.owns_of_parse (hr : r.WellTyped) {spec : PathSpec} {log : List LogRecord}
    (hparse : r.parse (r.info T) spec = some ⟨.ok p, log⟩) :
    ∀ d ∈ p.members, r.Owns d.member.owner d.member := by
  obtain ⟨names, -, hroot, hresolves⟩ := resolves_of_parse hparse
  exact Resolves.owns hr hresolves

/-- **A compiled accessor is a walk and a work in one cell,** for each member that its path goes
through: the walk is lawful and leads to the owner of the member. -/
theorem Registry.exists_actsIn (hr : r.LawfulInfos) {spec : PathSpec} {log : List LogRecord}
    (hparse : r.parse (r.info T) spec = some ⟨.ok p, log⟩) {c : Compiler} {a : Accessor U T V}
    (ha : (c.compile T V p).value = .ok a) {front more : List (Descriptor U)} {d : Descriptor U}
    (hmembers : p.members = front ++ d :: more) {L : Layout U O} {i : L.Cell C}
    {h : Handles U O C} (hd : d.member.handles = ⟨O, C, h⟩) (hi : L.Addresses h i) :
    r.Leads T front O ∧ (∀ e ∈ front, e.member.isTraversable = true) ∧
      (Access.walk (Chain.stepsFrom 0 front)).Lawful T ∧
      ∃ f : Work U V, f.ActsIn L i ∧ ∀ x,
        (a.get x).map (Dyn.mk V) =
            (Work.behind (.walk (Chain.stepsFrom 0 front)) f).get ⟨T, x⟩ ∧
          ∀ v, a.set x v = (Work.behind (.walk (Chain.stepsFrom 0 front)) f).set ⟨T, x⟩ v := by
  have howns := owns_of_parse hr.toWellTyped hparse
  obtain ⟨names, -, hroot, hresolves⟩ := resolves_of_parse hparse
  obtain ⟨rfl, rfl, s, hs, -⟩ := Compiler.compile_cases ha
  rw [← hroot] at hresolves
  have hp : p.Typed r := typed_of_resolves hr.toWellTyped hresolves
  have hmut := (Compiler.traversable_of_setter hs).2
  obtain ⟨asg, hasg, hready, hwork⟩ := Compiler.exists_assigning ha hp.unwraps_terminal
  obtain ⟨f, hf, hrest⟩ := Path.exists_rest hasg hready hmut hmembers hd hi
  have hleads : r.Leads p.root.id front O := by
    have howner : d.member.owner = O := by rw [Member.owner, hd]
    exact howner ▸ hp.leads_front hmembers
  have hfront : ∀ e ∈ front, e ∈ p.members ∧ e.member.isTraversable = true := by
    intro e he
    refine ⟨hmembers ▸ List.mem_append_left _ he, hmut e ?_⟩
    rcases Path.member_cases hmembers with ⟨hparents, -⟩ | ⟨more', hparents⟩
    · exact hparents ▸ he
    · exact hparents ▸ List.mem_append_left _ he
  have hmutFront : ∀ e ∈ front, e.member.isTraversable = true := fun e he => (hfront e he).2
  have hlawful : (Access.walk (Chain.stepsFrom 0 front)).Lawful p.root.id :=
    hleads.lawful_walk hr (fun e he => howns e (hfront e he).1) hmutFront 0
  rw [hrest] at hwork
  exact ⟨hleads, hmutFront, hlawful, f, hf, hwork⟩

/-- **Accessors whose paths diverge do not interfere.** Let two accessors be compiled, without
setters of the caller's, for paths from one root type that were parsed in a registry of lawful
descriptions; and let the paths go through the same cells of layouts up to some owner, and address
different cells there. On each root, what is written by one does not change what the other reads,
nor whether the other writes, and why it fails to. Both writes leave the same root in either order,
but for the order of the entries in the log of that owner. -/
theorem Registry.diverging_accessors_commute (hr : r.LawfulInfos) {spec spec' : PathSpec}
    {log log' : List LogRecord} (hp : r.parse (r.info T) spec = some ⟨.ok p, log⟩)
    (hq : r.parse (r.info T) spec' = some ⟨.ok q, log'⟩) {c c' : Compiler} {a : Accessor U T V}
    {b : Accessor U T W} (ha : (c.compile T V p).value = .ok a)
    (hb : (c'.compile T W q).value = .ok b) {L : Layouts U} {front : List (Descriptor U)}
    (hdiverge : L.Diverge front p.members q.members) (x : U.Val T) (v : U.Val V) (w : U.Val W) :
    (b.get (a.set x v).2 = b.get x ∧ a.get (b.set x w).2 = a.get x) ∧
      ((b.set (a.set x v).2 w).1 = (b.set x w).1 ∧ (a.set (b.set x w).2 v).1 = (a.set x v).1) ∧
      ((b.set (a.set x v).2 w).2 = (a.set (b.set x w).2 v).2 ∨
        ∃ s y z, (Chain.ofDescriptors front).readMut ⟨T, x⟩ = .ok s ∧ (L s.ty).Reordered y z ∧
          (b.set (a.set x v).2 w).2 = s.fill y ∧ (a.set (b.set x w).2 v).2 = s.fill z) := by
  generalize hpm : p.members = ds at hdiverge
  generalize hqm : q.members = es at hdiverge
  obtain @⟨front', more, more', d, e, hfront, @⟨O, C, C', h, k, i, j, hd, he, hi, hj, hne⟩⟩ :=
    hdiverge
  obtain ⟨hleads, hmut, hlawful, f, hf, hfwork⟩ := exists_actsIn hr hp ha hpm hd hi
  obtain ⟨hleads', hmut', hlawful', g, hg, hgwork⟩ := exists_actsIn hr hq hb hqm he hj
  have halike := Layouts.alike_walk hr.toWellTyped hfront hleads hleads' hmut hmut' 0
  have harrive := hleads.arrivesAt hr.toWellTyped hmut
  have harrive' := hleads'.arrivesAt hr.toWellTyped hmut'
  have hset := fun x v => (hfwork x).2 v
  have hset' := fun x w => (hgwork x).2 w
  simp only [hset, hset']
  obtain ⟨hget, houtcome⟩ := hf.unseen_behind hg hne hlawful hlawful' halike harrive x v
  obtain ⟨hget', houtcome'⟩ :=
    hg.unseen_behind hf hne.symm hlawful' hlawful halike.symm harrive' x w
  refine ⟨⟨Dyn.map_mk_inj ?_, Dyn.map_mk_inj ?_⟩, ⟨houtcome w, houtcome' v⟩, ?_⟩
  · rw [(hgwork _).1, (hgwork _).1]
    exact hget
  · rw [(hfwork _).1, (hfwork _).1]
    exact hget'
  · rcases hf.reordered_behind hg hne hlawful hlawful' halike harrive x v w with
      heq | ⟨o, fill, y, z, hborrow, hreordered, hy, hz⟩
    · exact .inl heq
    · rw [Access.walk_borrow] at hborrow
      refine .inr ⟨⟨O, o, fill⟩, y, z, ?_, hreordered, hy, hz⟩
      rw [Chain.readMut, Chain.steps_ofDescriptors]
      exact hborrow

/-- In the objects that may be linked to a next one, the count of the next one and the count of the
one after do not interfere. -/
theorem Declarations.linked_accessors_commute :
    (linked.registry []).LawfulInfos ∧
      ∃ p log q log', (linked.registry []).parse ((linked.registry []).info (Ty.declared 0))
          (.text "|x| x.next.count") = some ⟨.ok p, log⟩ ∧
        (linked.registry []).parse ((linked.registry []).info (Ty.declared 0))
          (.text "|x| x.next.next.count") = some ⟨.ok q, log'⟩ ∧
        ∃ (a b : Accessor linked.universe (Ty.declared 0) (Ty.prim .i32)),
          (Compiler.compile ⟨false⟩ (Ty.declared 0) (Ty.prim .i32) p).value = .ok a ∧
          (Compiler.compile ⟨false⟩ (Ty.declared 0) (Ty.prim .i32) q).value = .ok b ∧
          ∃ front, linked.layout.Diverge front p.members q.members ∧ ∀ x v w,
            (b.get (a.set x v).2 = b.get x ∧ a.get (b.set x w).2 = a.get x) ∧
              ((b.set (a.set x v).2 w).1 = (b.set x w).1 ∧
                (a.set (b.set x w).2 v).1 = (a.set x v).1) ∧
              ((b.set (a.set x v).2 w).2 = (a.set (b.set x w).2 v).2 ∨
                ∃ s y z, (Chain.ofDescriptors front).readMut ⟨Ty.declared 0, x⟩ = .ok s ∧
                  (linked.layout s.ty).Reordered y z ∧ (b.set (a.set x v).2 w).2 = s.fill y ∧
                  (a.set (b.set x w).2 v).2 = s.fill z) := by
  have hr := linked.lawfulInfos_registry []
  have hn : linked.isWrapper 0 = false := linked_isWrapper 0
  have hcells : (linked.cells 0).Nodup := by decide
  have hp : ((linked.registry []).parse ((linked.registry []).info (Ty.declared 0))
      (.text "|x| x.next.count")).any (fun found => found.value.toOption.any fun p =>
        decide (p.members.map (fun d => (d.member.owner, d.member.value)) =
          [(Ty.declared 0, Ty.option (Ty.declared 0)), (Ty.declared 0, Ty.prim .i32)]) &&
          (Compiler.compile (U := linked.universe) ⟨false⟩ (Ty.declared 0) (Ty.prim .i32)
            p).value.toOption.any fun _ => true) = true := by decide +kernel
  have hq : ((linked.registry []).parse ((linked.registry []).info (Ty.declared 0))
      (.text "|x| x.next.next.count")).any (fun found => found.value.toOption.any fun q =>
        decide (q.members.map (fun d => (d.member.owner, d.member.value)) =
          [(Ty.declared 0, Ty.option (Ty.declared 0)), (Ty.declared 0, Ty.option (Ty.declared 0)),
            (Ty.declared 0, Ty.prim .i32)]) &&
          (Compiler.compile (U := linked.universe) ⟨false⟩ (Ty.declared 0) (Ty.prim .i32)
            q).value.toOption.any fun _ => true) = true := by decide +kernel
  obtain ⟨p, log, hp, hptest⟩ := Logged.exists_of_any hp
  obtain ⟨q, log', hq, hqtest⟩ := Logged.exists_of_any hq
  obtain ⟨hpm, ha⟩ := Bool.and_eq_true_iff.1 hptest
  obtain ⟨hqm, hb⟩ := Bool.and_eq_true_iff.1 hqtest
  obtain ⟨a, ha, -⟩ := exists_eq_ok_of_any ha
  obtain ⟨b, hb, -⟩ := exists_eq_ok_of_any hb
  obtain ⟨d, _, hpm, hd, hmap⟩ := List.map_eq_cons_iff.1 (of_decide_eq_true hpm)
  obtain ⟨d', _, rfl, hd', hmap⟩ := List.map_eq_cons_iff.1 hmap
  obtain rfl := List.map_eq_nil_iff.1 hmap
  obtain ⟨e, _, hqm, he, hmap⟩ := List.map_eq_cons_iff.1 (of_decide_eq_true hqm)
  obtain ⟨e', _, rfl, he', hmap⟩ := List.map_eq_cons_iff.1 hmap
  obtain ⟨e'', _, rfl, -, hmap⟩ := List.map_eq_cons_iff.1 hmap
  obtain rfl := List.map_eq_nil_iff.1 hmap
  have hpowns := Registry.owns_of_parse hr.toWellTyped hp
  have hqowns := Registry.owns_of_parse hr.toWellTyped hq
  rw [hpm] at hpowns
  rw [hqm] at hqowns
  have hbacked : ∀ {t : Ty} {m : Descriptor linked.universe},
      (linked.registry []).Owns m.member.owner m.member →
        (m.member.owner, m.member.value) = (Ty.declared 0, t) →
          ∀ place : Place (linked.cells 0) t, BackedBy m 0 place := by
    intro t m howns hm place
    obtain ⟨howner, hvalue⟩ := Prod.mk.inj hm
    exact backedBy_of_owns hcells howns howner hvalue place
  have hnext : BackedBy d 0 .head := hbacked (hpowns d (by simp)) hd .head
  have hcount : BackedBy d' 0 (.tail .head) := hbacked (hpowns d' (by simp)) hd' (.tail .head)
  have hnext' : BackedBy e 0 .head := hbacked (hqowns e (by simp)) he .head
  have hnext'' : BackedBy e' 0 .head := hbacked (hqowns e' (by simp)) he' .head
  have hdiverge : linked.layout.Diverge [d] p.members q.members := by
    rw [hpm, hqm]
    exact .mk (.cons (hnext.sameCell hn hnext') .nil) (hcount.otherCell hn hnext'' nofun)
  exact ⟨hr, p, log, q, log', hp, hq, a, b, ha, hb, [d], hdiverge,
    Registry.diverging_accessors_commute hr hp hq ha hb hdiverge⟩

end MemberAccess
