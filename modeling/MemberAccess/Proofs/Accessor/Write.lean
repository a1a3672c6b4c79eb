import Mathlib.Data.List.Forall2
import MemberAccess.Proofs.Accessor.Failure
import MemberAccess.Proofs.Accessor.Lens

/-!
# What a write touches

A write goes to the owner of the last member, by mutable borrows and nothing else, and stores one
value there: by the setter of the last member, or through the last borrow. So the root afterwards is
the root before with another owner in its place. That no further setter is called is stated by
exchanging the setters: a path whose members have other setters, but are otherwise the same, is
written in the same way up to the one owner, and what is put there is what the setter of its last
member makes of the owner, if that is called, and does not depend on any setter, if it is not.

## Main definitions

* `Path.CallsSetter`: whether a write calls the setter of the last member.
* `Path.SameUpToSet`: paths that differ in their setters alone.

## Main results

* `Path.set_of_readMut`: what a write stores in the owner.
* `Path.SameUpToSet.exists_compile`: exchanging setters changes nothing for the compiler.
* `Path.SameUpToSet.exists_set`: what a write with other setters does.
* `Registry.compiled_set_touches_target`: a write touches its target alone.
-/

namespace MemberAccess

variable {U : Universe} {r : Registry U} {p q : Path U}

/-! ### What is stored -/

/-- **A write calls the setter of the last member** if the strategy is direct, or if the member is a
property or cannot be borrowed. -/
def Path.CallsSetter (p : Path U) (strategy : SetStrategy) : Prop :=
  strategy = .direct ∨ p.terminal.member.kind = .property ∨
    p.terminal.member.isTraversable = false

/-- Unless the strategy is direct, a write calls the setter exactly if it does not assign through a
borrow. -/
theorem Path.callsSetter_compound_iff :
    p.CallsSetter .compound ↔
      ¬(p.terminal.member.kind = .field ∧ p.terminal.member.isTraversable = true) := by
  rw [CallsSetter]
  cases p.terminal.member.kind <;> cases p.terminal.member.isTraversable <;> decide

/-- Assigning through a borrow fills the slot of the component. -/
theorem Assign.perform_slot_of_handles {O V : U.Ty} {m : Member U} {h : Handles U O V}
    (hm : m.handles = ⟨O, V, h⟩) (hslot : m.isTraversable = true) (o : U.Val O) (v : U.Val V) :
    ∃ borrow, h.getMut = some borrow ∧
      (Assign.slot m).perform ⟨O, o⟩ v = (.ok (), (borrow o).2 v) := by
  obtain ⟨name, kind, accessibility, handles⟩ := m
  obtain rfl : handles = ⟨O, V, h⟩ := hm
  obtain ⟨borrow, hborrow⟩ := Option.isSome_iff_exists.1 hslot
  exact ⟨borrow, hborrow, Assign.perform_slot hborrow o v⟩

/-- Assigning by a setter applies it. -/
theorem Assign.perform_setter_of_handles {O V : U.Ty} {m : Member U} {h : Handles U O V}
    (hm : m.handles = ⟨O, V, h⟩) (hset : m.isWritable = true) (o : U.Val O) (v : U.Val V) :
    ∃ store, h.set = some store ∧ (Assign.setter m).perform ⟨O, o⟩ v = (.ok (), store o v) := by
  obtain ⟨name, kind, accessibility, handles⟩ := m
  obtain rfl : handles = ⟨O, V, h⟩ := hm
  obtain ⟨store, hstore⟩ := Option.isSome_iff_exists.1 hset
  exact ⟨store, hstore, Assign.perform_setter hstore o v⟩

/-- **What a write stores:** where the borrow of the owner arrives, the owner is replaced by what
the setter makes of it, if the write calls the setter, and by what the last borrow makes of it, if
the write does not. -/
theorem Path.set_of_readMut {T O V : U.Ty} {c : Compiler} {a : Accessor U T V}
    (ha : (c.compile T V p).value = .ok a) {h : Handles U O V}
    (hhandles : p.terminal.member.handles = ⟨O, V, h⟩) {x : U.Val T} {o : U.Val O}
    {fill : U.Val O → U.Val T}
    (hs : (Chain.ofDescriptors p.parents).readMut ⟨T, x⟩ = .ok ⟨O, o, fill⟩) (v : U.Val V) :
    (p.CallsSetter a.strategy →
        ∃ store, h.set = some store ∧ a.set x v = (.ok (), fill (store o v))) ∧
      (¬p.CallsSetter a.strategy →
        ∃ borrow, h.getMut = some borrow ∧ a.set x v = (.ok (), fill ((borrow o).2 v))) := by
  obtain ⟨-, -, s, hsetter, rfl⟩ := Compiler.compile_cases ha
  obtain ⟨hwritable, ⟨set, -, htyped, rfl⟩ | ⟨-, rfl, -⟩⟩ := Compiler.setter_cases hsetter
  · refine ⟨fun _ => ?_, fun hnot => absurd (.inl rfl) hnot⟩
    obtain ⟨k, hk, hset⟩ := Option.bind_eq_some_iff.1 htyped
    obtain ⟨hparents, hk⟩ := typed?_cases hk
    rw [hhandles] at hk
    rw [hparents] at hs
    -- The only member is one of the root, and the slot of its owner is the whole root.
    cases ErasedHandles.eq_of_typed? hk
    cases (Except.ok.inj hs : Slot.whole ⟨T, x⟩ = ⟨T, o, fill⟩)
    exact ⟨set, hset, rfl⟩
  · have hwrite : Accessor.set
        ⟨p.getter T V, .compound (.ofDescriptors p.parents) p.assign, p.names⟩ x v =
          ((p.assign.perform ⟨O, o⟩ v).1, fill (p.assign.perform ⟨O, o⟩ v).2) := by
      simp only [Accessor.set, Setter.set, hs, Slot.dyn_mk]
    rw [hwrite]
    by_cases hslot : p.terminal.member.kind = .field ∧ p.terminal.member.isTraversable = true
    · refine ⟨fun hcalls => absurd hslot (callsSetter_compound_iff.1 hcalls), fun _ => ?_⟩
      obtain ⟨borrow, hborrow, hperform⟩ := Assign.perform_slot_of_handles hhandles hslot.2 o v
      rw [assign, if_pos hslot, hperform]
      exact ⟨borrow, hborrow, rfl⟩
    · refine ⟨fun _ => ?_, fun hnot => absurd (callsSetter_compound_iff.2 hslot) hnot⟩
      obtain ⟨store, hstore, hperform⟩ := Assign.perform_setter_of_handles hhandles hwritable o v
      rw [assign, if_neg hslot, hperform]
      exact ⟨store, hstore, rfl⟩

/-! ### Exchanging setters -/

/-- **Members that differ in their setters alone.** Either both have one, or neither has. -/
inductive Member.SameUpToSet : Member U → Member U → Prop
  | mk {O V : U.Ty} {name : String} {kind : MemberKind} {accessibility : Accessibility}
      {get : U.Val O → U.Val V} {getMut : Option (U.Val O → U.Val V × (U.Val V → U.Val O))}
      {set set' : Option (U.Val O → U.Val V → U.Val O)} (h : set'.isSome = set.isSome) :
      SameUpToSet ⟨name, kind, accessibility, ⟨O, V, ⟨get, getMut, set⟩⟩⟩
        ⟨name, kind, accessibility, ⟨O, V, ⟨get, getMut, set'⟩⟩⟩

/-- Members of a path that differ in their setters alone. -/
structure Descriptor.SameUpToSet (d e : Descriptor U) : Prop where
  member : d.member.SameUpToSet e.member
  unwraps : e.unwraps = d.unwraps

/-- **Paths that differ in their setters alone.** -/
structure Path.SameUpToSet (p q : Path U) : Prop where
  root : q.root = p.root
  parents : List.Forall₂ Descriptor.SameUpToSet p.parents q.parents
  terminal : p.terminal.SameUpToSet q.terminal

namespace Member.SameUpToSet

variable {m n : Member U}

/-- A member is the same as itself. -/
protected theorem refl (m : Member U) : m.SameUpToSet m := .mk rfl

/-- The setter has no part in the name of a member. -/
theorem name_eq (h : m.SameUpToSet n) : n.name = m.name := by
  cases h
  rfl

theorem kind_eq (h : m.SameUpToSet n) : n.kind = m.kind := by
  cases h
  rfl

theorem accessibility_eq (h : m.SameUpToSet n) : n.accessibility = m.accessibility := by
  cases h
  rfl

theorem value_eq (h : m.SameUpToSet n) : n.value = m.value := by
  cases h
  rfl

theorem isTraversable_eq (h : m.SameUpToSet n) : n.isTraversable = m.isTraversable := by
  cases h
  rfl

/-- Another setter is still a setter. -/
theorem isWritable_eq (h : m.SameUpToSet n) : n.isWritable = m.isWritable := by
  obtain ⟨h⟩ := h
  exact h

/-- A borrow does not depend on the setter. -/
theorem readMut_eq (h : m.SameUpToSet n) (d : Dyn U) :
    n.handles.readMut d = m.handles.readMut d := by
  obtain @⟨O, V, name, kind, accessibility, get, getMut, set, set', -⟩ := h
  cases getMut <;> rfl

/-- The handles have the same types and the same borrow. -/
theorem exists_handles {O V : U.Ty} (h : m.SameUpToSet n) {k : Handles U O V}
    (hm : m.handles = ⟨O, V, k⟩) :
    ∃ k' : Handles U O V, n.handles = ⟨O, V, k'⟩ ∧ k'.getMut = k.getMut := by
  cases h with
  | mk h =>
      cases hm
      exact ⟨_, rfl, rfl⟩

/-- There are typed setters for the same types. -/
theorem typed?_set_isSome (h : m.SameUpToSet n) (T V : U.Ty) :
    ((n.handles.typed? T V).bind Handles.set).isSome =
      ((m.handles.typed? T V).bind Handles.set).isSome := by
  obtain @⟨O, W, name, kind, accessibility, get, getMut, set, set', h⟩ := h
  by_cases e : O = T ∧ W = V
  · obtain ⟨rfl, rfl⟩ := e
    simpa only [ErasedHandles.typed?_self, Option.bind_some] using h
  · simp only [ErasedHandles.typed?, e, dif_neg, not_false_eq_true, Option.bind_none]

end Member.SameUpToSet

/-- A walk of mutable borrows does not depend on setters. -/
theorem Chain.readMutSteps_congr {ds es : List (Descriptor U)}
    (h : List.Forall₂ Descriptor.SameUpToSet ds es) (index : Nat) (d : Dyn U) :
    readMutSteps (stepsFrom index es) d = readMutSteps (stepsFrom index ds) d := by
  induction h generalizing index d with
  | nil => rfl
  | cons he _ ih =>
      simp only [stepsFrom, readMutSteps, Descriptor.step, Step.missing, he.member.readMut_eq,
        he.member.name_eq, he.unwraps, ih]

namespace Path.SameUpToSet

/-- A path is one of those that differ from it in their setters at most. -/
protected theorem refl (p : Path U) : p.SameUpToSet p where
  root := rfl
  parents := List.forall₂_same.2 fun d _ => ⟨.refl d.member, rfl⟩
  terminal := ⟨.refl p.terminal.member, rfl⟩

/-- The owner of the last member is borrowed in the same way. -/
theorem readMut_eq (h : p.SameUpToSet q) (d : Dyn U) :
    (Chain.ofDescriptors q.parents).readMut d = (Chain.ofDescriptors p.parents).readMut d := by
  rw [Chain.readMut, Chain.readMut, Chain.steps_ofDescriptors, Chain.steps_ofDescriptors]
  exact Chain.readMutSteps_congr h.parents 0 d

/-- A write calls a setter on both paths, or on neither. -/
theorem callsSetter_iff (h : p.SameUpToSet q) (strategy : SetStrategy) :
    q.CallsSetter strategy ↔ p.CallsSetter strategy := by
  rw [CallsSetter, CallsSetter, h.terminal.member.kind_eq, h.terminal.member.isTraversable_eq]

/-- Both paths are of the same length. -/
theorem isSimple_eq (h : p.SameUpToSet q) : q.isSimple = p.isSimple := by
  have hlength : q.members.length = p.members.length := by
    rw [← q.parents_append_terminal, ← p.parents_append_terminal, List.length_append,
      List.length_append, h.parents.length_eq, List.length_singleton, List.length_singleton]
  rw [isSimple, isSimple, hlength]

/-- There are typed setters of both paths, or of neither. -/
theorem typed?_set_isSome (h : p.SameUpToSet q) (T V : U.Ty) :
    ((q.typed? T V).bind Handles.set).isSome = ((p.typed? T V).bind Handles.set).isSome := by
  rw [typed?, typed?, h.isSimple_eq]
  cases p.isSimple with
  | true => exact h.terminal.member.typed?_set_isSome T V
  | false => rfl

/-- The owner can be borrowed on both paths, if it can on one. -/
theorem compoundSetter_eq (h : p.SameUpToSet q) {T V : U.Ty}
    (hmut : ∀ d ∈ p.parents, d.member.isTraversable = true) :
    q.compoundSetter T V = .ok (.compound (.ofDescriptors q.parents) q.assign) := by
  refine compoundSetter_of_traversable ?_
  have hall : ∀ {ds es : List (Descriptor U)}, List.Forall₂ Descriptor.SameUpToSet ds es →
      (∀ d ∈ ds, d.member.isTraversable = true) → ∀ e ∈ es, e.member.isTraversable = true := by
    intro ds es hsame hds
    induction hsame with
    | nil => exact hds
    | cons he _ ih =>
        obtain ⟨hd, hds⟩ := List.forall_mem_cons.1 hds
        exact List.forall_mem_cons.2 ⟨he.member.isTraversable_eq.trans hd, ih hds⟩
  exact hall h.parents hmut

/-- The compiler finds a setter of the same strategy. -/
theorem exists_setter (h : p.SameUpToSet q) {T V : U.Ty} {c : Compiler} {s : Setter U T V}
    (hs : c.setter p T V = .ok s) : ∃ s', c.setter q T V = .ok s' ∧ s'.strategy = s.strategy := by
  obtain ⟨hwritable, hcases⟩ := Compiler.setter_cases hs
  have hwritable : q.terminal.member.isWritable = true :=
    h.terminal.member.isWritable_eq.trans hwritable
  have haccess := h.terminal.member.accessibility_eq
  have htyped := h.typed?_set_isSome T V
  rcases hcases with ⟨set, hpublic, hset, rfl⟩ | ⟨hpolicy, rfl, hmut⟩
  · rw [hset, Option.isSome_some, Option.isSome_iff_exists] at htyped
    obtain ⟨set', hset'⟩ := htyped
    exact ⟨_, Compiler.setter_of_typed hwritable (haccess.trans hpublic) hset', rfl⟩
  · have hcompound : c.setter q T V = q.compoundSetter T V := by
      rcases hpolicy with ⟨hnonPublic, hallow⟩ | ⟨hpublic, hnone⟩
      · refine Compiler.setter_of_not_typed hwritable (.inr hallow) fun hpublic => ?_
        cases hnonPublic.symm.trans (haccess.symm.trans hpublic)
      · rw [hnone, Option.isSome_none, Option.isSome_eq_false_iff, Option.isNone_iff_eq_none]
          at htyped
        exact Compiler.setter_of_not_typed hwritable (.inl (haccess.trans hpublic)) fun _ => htyped
    exact ⟨_, hcompound.trans (h.compoundSetter_eq hmut), rfl⟩

/-- **Exchanging setters changes nothing for the compiler:** it makes an accessor of the same
strategy. -/
theorem exists_compile (h : p.SameUpToSet q) {T V : U.Ty} {c : Compiler} {a : Accessor U T V}
    (ha : (c.compile T V p).value = .ok a) :
    ∃ b, (c.compile T V q).value = .ok b ∧ b.strategy = a.strategy := by
  obtain ⟨hroot, hvalue, s, hs, rfl⟩ := Compiler.compile_cases ha
  obtain ⟨s', hs', hstrategy⟩ := h.exists_setter hs
  have hcheck : q.checkTypes T V = .ok () :=
    checkTypes_eq_ok (by rw [h.root, hroot]) (h.terminal.member.value_eq.trans hvalue)
  refine ⟨⟨q.getter T V, s', q.names⟩, ?_, hstrategy⟩
  rw [Compiler.value_compile hcheck, hs']
  rfl

/-- **A write with other setters:** where the owner is borrowed, it is replaced by what the other
setter of the last member makes of it, if the write calls the setter, and nothing is different, if
the write does not. -/
theorem exists_set (hq : p.SameUpToSet q) {T O V : U.Ty} {c : Compiler} {a : Accessor U T V}
    (ha : (c.compile T V p).value = .ok a) {h : Handles U O V}
    (hhandles : p.terminal.member.handles = ⟨O, V, h⟩) {x : U.Val T} {o : U.Val O}
    {fill : U.Val O → U.Val T}
    (hs : (Chain.ofDescriptors p.parents).readMut ⟨T, x⟩ = .ok ⟨O, o, fill⟩) (v : U.Val V) :
    ∃ (b : Accessor U T V) (h' : Handles U O V), (c.compile T V q).value = .ok b ∧
      q.terminal.member.handles = ⟨O, V, h'⟩ ∧
        (p.CallsSetter a.strategy →
          ∃ store', h'.set = some store' ∧ b.set x v = (.ok (), fill (store' o v))) ∧
        (¬p.CallsSetter a.strategy → b.set x v = a.set x v) := by
  obtain ⟨b, hb, hstrategy⟩ := hq.exists_compile ha
  obtain ⟨h', hh', hmut⟩ := hq.terminal.member.exists_handles hhandles
  have hcalls : q.CallsSetter b.strategy ↔ p.CallsSetter a.strategy := by
    rw [hstrategy]
    exact hq.callsSetter_iff _
  obtain ⟨hsetter, hborrow⟩ := Path.set_of_readMut hb hh' ((hq.readMut_eq _).trans hs) v
  refine ⟨b, h', hb, hh', fun h => hsetter (hcalls.2 h), fun hnot => ?_⟩
  obtain ⟨borrow', hborrow', hwritten'⟩ := hborrow (fun h => hnot (hcalls.1 h))
  obtain ⟨borrow, hborrow, hwritten⟩ := (Path.set_of_readMut ha hhandles hs v).2 hnot
  obtain rfl := Option.some.inj (hborrow'.symm.trans (hmut.trans hborrow))
  exact hwritten'.trans hwritten.symm

end Path.SameUpToSet

/-! ### The owner in a root -/

/-- **The owner of the last member in a root:** it is borrowed along the path, and whatever is
filled in for it is borrowed there, with the same root around it. -/
structure Path.OwnerIn {T O : U.Ty} (p : Path U) (x : U.Val T) (o : U.Val O)
    (fill : U.Val O → U.Val T) : Prop where
  borrowed : (Chain.ofDescriptors p.parents).readMut ⟨T, x⟩ = .ok ⟨O, o, fill⟩
  restore : fill o = x
  refill (o' : U.Val O) : (Chain.ofDescriptors p.parents).readMut ⟨T, fill o'⟩ = .ok ⟨O, o', fill⟩

/-- Borrowing along the members before the last is the access to the owner. -/
theorem Path.readMut_parents (p : Path U) (d : Dyn U) :
    (Chain.ofDescriptors p.parents).readMut d = p.ownerAccess.borrow d := by
  rw [ownerAccess_borrow, Chain.readMut, Chain.steps_ofDescriptors]

/-- What a lawful access to the owner borrows is the owner in the root. -/
theorem Path.ownerIn_of_borrow {T O : U.Ty} (hlawful : p.ownerAccess.Lawful T) {x : U.Val T}
    {o : U.Val O} {fill : U.Val O → U.Val T}
    (hs : p.ownerAccess.borrow ⟨T, x⟩ = .ok ⟨O, o, fill⟩) : p.OwnerIn x o fill where
  borrowed := (p.readMut_parents _).trans hs
  restore := hlawful.restore hs
  refill o' := (p.readMut_parents _).trans (hlawful.refill hs o')

/-- A wrapper that is empty comes after a member of the path. -/
theorem EmptyAfter.lt_length {ds : List (Descriptor U)} {x : Dyn U} {i : Nat}
    (h : EmptyAfter ds x i) : i < ds.length := by
  induction h with
  | here _ _ => exact Nat.succ_pos _
  | later _ _ _ ih => exact Nat.succ_lt_succ ih

/-- No wrapper on the way is empty where the getter of a typed path reads a value. -/
theorem Path.Typed.not_emptyAfter (hp : p.Typed r) {x : U.Val p.root.id}
    {v : U.Val p.value} (h : (p.getter p.root.id p.value).get x = .ok v) (i : Nat) :
    ¬EmptyAfter p.members ⟨p.root.id, x⟩ i := by
  intro hempty
  have hlength : i < p.names.length := by
    rw [names, List.length_map]
    exact hempty.lt_length
  have hmissing := hp.getter_eq_missing_iff.2 ⟨hempty, List.getElem?_eq_getElem hlength⟩
  cases h.symm.trans hmissing

/-! ### Compiled accessors -/

/-- **A write touches its target alone.** Let an accessor be compiled, without a setter of the
caller's, for a path that was parsed in a registry of lawful descriptions, and let a write by it
succeed on a root. Then the root has one owner of the last member in it, and is afterwards the same
root with another owner filled in.

If the write calls the setter of the last member, the setter has made the new owner of the old one,
and it has replaced the component of the member, but for its books. It was called once and no other
setter was: with any other setters on the path, the root is filled with what the last of them makes
of the old owner. If the write does not call the setter, the new owner is the old one with the
component replaced, and the write is the same with any other setters on the path. In both cases the
wrappers on the way hold a value before and after. -/
theorem Registry.compiled_set_touches_target (hr : r.LawfulInfos) {T V : U.Ty} {spec : PathSpec}
    {log : List LogRecord} (hparse : r.parse (r.info T) spec = some ⟨.ok p, log⟩) {c : Compiler}
    {a : Accessor U T V} (ha : (c.compile T V p).value = .ok a) {x : U.Val T} {v : U.Val V}
    (hset : (a.set x v).1 = .ok ()) :
    ∃ (O : U.Ty) (h : Handles U O V) (component : Component U O V) (o : U.Val O)
        (fill : U.Val O → U.Val T),
      p.terminal.member.handles = ⟨O, V, h⟩ ∧ r.Addresses h component ∧ p.OwnerIn x o fill ∧
        (p.CallsSetter a.strategy →
          (∃ store, h.set = some store ∧ a.set x v = (.ok (), fill (store o v)) ∧
              r.SameMembers O (component.replace o v) (store o v)) ∧
            ∀ q, p.SameUpToSet q → ∃ (b : Accessor U T V) (h' : Handles U O V) (store' : _),
              (c.compile T V q).value = .ok b ∧ q.terminal.member.handles = ⟨O, V, h'⟩ ∧
                h'.set = some store' ∧ b.set x v = (.ok (), fill (store' o v))) ∧
        (¬p.CallsSetter a.strategy →
          a.set x v = (.ok (), fill (component.replace o v)) ∧
            ∀ q, p.SameUpToSet q → ∃ b : Accessor U T V,
              (c.compile T V q).value = .ok b ∧ b.set x v = a.set x v) ∧
        ∀ i, ¬EmptyAfter p.members ⟨T, x⟩ i ∧ ¬EmptyAfter p.members ⟨T, (a.set x v).2⟩ i := by
  obtain ⟨names, -, hroot, hresolves⟩ := resolves_of_parse hparse
  obtain ⟨rfl, rfl, s, hs, hparts⟩ := Compiler.compile_cases ha
  have hresolves : r.Resolves p.root names p.members := hroot ▸ hresolves
  have hp : p.Typed r := typed_of_resolves hr.toWellTyped hresolves
  obtain ⟨component, hcomponent, store, hfocus⟩ := Path.exists_focuses hr hroot hresolves hs
  rw [← hparts] at hfocus
  obtain ⟨o, fill, hborrow⟩ : ∃ o fill, p.ownerAccess.borrow ⟨p.root.id, x⟩ =
      .ok ⟨p.terminal.member.owner, o, fill⟩ := by
    rcases hfocus.outcome x with hok | ⟨f, hf⟩
    · exact hok
    · rw [hfocus.set_error hf] at hset
      cases hset
  have howner : p.OwnerIn x o fill := Path.ownerIn_of_borrow hfocus.lawful hborrow
  have hhandles : p.terminal.member.handles =
      ⟨p.terminal.member.owner, p.value, p.terminal.member.handles.handles⟩ := rfl
  have hwrite := Path.set_of_readMut ha hhandles howner.borrowed v
  refine ⟨p.terminal.member.owner, p.terminal.member.handles.handles, component, o, fill, hhandles,
    hcomponent, howner, fun hcalls => ⟨?_, fun q hq => ?_⟩, fun hnot => ⟨?_, fun q hq => ?_⟩,
    fun i => ⟨?_, ?_⟩⟩
  · obtain ⟨store, hstore, hwritten⟩ := hwrite.1 hcalls
    exact ⟨store, hstore, hwritten, hcomponent.set hstore o v⟩
  · obtain ⟨b, h', hb, hh', hsetter, -⟩ := hq.exists_set ha hhandles howner.borrowed v
    obtain ⟨store', hstore', hwritten⟩ := hsetter hcalls
    exact ⟨b, h', store', hb, hh', hstore', hwritten⟩
  · obtain ⟨borrow, hborrow, hwritten⟩ := hwrite.2 hnot
    have hreplace : (borrow o).2 = component.replace o :=
      congrArg Prod.snd (hcomponent.getMut hborrow o)
    exact hwritten.trans (congrArg (fun f => (Except.ok (), fill (f v))) hreplace)
  · obtain ⟨b, -, hb, -, -, hsame⟩ := hq.exists_set ha hhandles howner.borrowed v
    exact ⟨b, hb, hsame hnot⟩
  · have hread : a.get x = .ok (component.read o) := hfocus.get_ok hborrow
    rw [hparts] at hread
    exact hp.not_emptyAfter hread i
  · have hread : a.get (a.set x v).2 = .ok (component.read (store o v)) :=
      hfocus.get_ok (hfocus.borrow_set hborrow v)
    rw [hparts] at hread
    rw [hparts]
    exact hp.not_emptyAfter hread i

/-- An object with a next one, which has none. -/
def Declarations.linkedPair : Obj linked (Ty.declared 0) :=
  .record 0 (.cons (.present (.record 0 (.cons .absent (.cons (.i32 1) .nil)) []))
    (.cons (.i32 2) .nil)) []

/-- In an object with a next one, a write to the count of the next touches that alone. -/
theorem Declarations.linked_set_touches_target :
    (linked.registry []).LawfulInfos ∧
      ∃ p log, (linked.registry []).parse ((linked.registry []).info (Ty.declared 0))
          (.text "|x| x.next.count") = some ⟨.ok p, log⟩ ∧
        ∃ a : Accessor linked.universe (Ty.declared 0) (Ty.prim .i32),
          (Compiler.compile ⟨false⟩ (Ty.declared 0) (Ty.prim .i32) p).value = .ok a ∧
            (a.set linkedPair (.i32 3)).1 = .ok () ∧
            ∃ O h component o fill, p.terminal.member.handles = ⟨O, Ty.prim .i32, h⟩ ∧
              (linked.registry []).Addresses h component ∧ p.OwnerIn linkedPair o fill ∧
              (p.CallsSetter a.strategy →
                (∃ store, h.set = some store ∧
                    a.set linkedPair (.i32 3) = (.ok (), fill (store o (.i32 3))) ∧
                    (linked.registry []).SameMembers O (component.replace o (.i32 3))
                      (store o (.i32 3))) ∧
                  ∀ q, p.SameUpToSet q → ∃ b h' store',
                    (Compiler.compile ⟨false⟩ (Ty.declared 0) (Ty.prim .i32) q).value = .ok b ∧
                      q.terminal.member.handles = ⟨O, Ty.prim .i32, h'⟩ ∧ h'.set = some store' ∧
                      b.set linkedPair (.i32 3) = (.ok (), fill (store' o (.i32 3)))) ∧
              (¬p.CallsSetter a.strategy →
                a.set linkedPair (.i32 3) = (.ok (), fill (component.replace o (.i32 3))) ∧
                  ∀ q, p.SameUpToSet q → ∃ b,
                    (Compiler.compile ⟨false⟩ (Ty.declared 0) (Ty.prim .i32) q).value = .ok b ∧
                      b.set linkedPair (.i32 3) = a.set linkedPair (.i32 3)) ∧
              ∀ i, ¬EmptyAfter p.members ⟨Ty.declared 0, linkedPair⟩ i ∧
                ¬EmptyAfter p.members ⟨Ty.declared 0, (a.set linkedPair (.i32 3)).2⟩ i := by
  have hr := linked.lawfulInfos_registry []
  have htest : ((linked.registry []).parse ((linked.registry []).info (Ty.declared 0))
      (.text "|x| x.next.count")).any (fun found => found.value.toOption.any fun p =>
        (Compiler.compile (U := linked.universe) ⟨false⟩ (Ty.declared 0) (Ty.prim .i32)
          p).value.toOption.any fun a => (a.set linkedPair (.i32 3)).1.toOption.any fun _ => true) =
            true := by
    decide +kernel
  obtain ⟨p, log, hparse, hcompile⟩ := Logged.exists_of_any htest
  obtain ⟨a, ha, hset⟩ := exists_eq_ok_of_any hcompile
  obtain ⟨_, hset, -⟩ := exists_eq_ok_of_any hset
  exact ⟨hr, p, log, hparse, a, ha, hset, Registry.compiled_set_touches_target hr hparse ha hset⟩

end MemberAccess
