import Mathlib.Data.List.Forall2
import MemberAccess.Proofs.Accessor.Compilation
import MemberAccess.Proofs.Objects.Registry

/-!
# The policy on writing

Whether a path gets an accessor depends on its two types, on the setter and the accessibility of
its last member, and on the borrows of the members before. The reasons to refuse are tried in this
order, and `Compiler.Refuses` states them one by one, next to what it takes to be permitted.

Of all this, the policy of the compiler is asked for one thing only: whether a member that is not
public may be written. A setter of the caller's takes the place of the whole decision. Neither of
them has a part in reading.

## Main definitions

* `Compiler.Refuses`, `Compiler.Permits`: what the policy decides for a path.
* `Path.WrittenBy`: how a setter that was permitted writes the last member.
* `Path.SameToPolicy`: two paths that differ in what the policy must not ask for.
* `Relaxes`: what may become of an outcome when members that are not public may be written.

## Main results

* `Compiler.setter_eq_error_iff`, `Compiler.exists_setter_iff`: the setter of a path is refused or
  permitted as stated.
* `Path.SameToPolicy.map_strategy_compile`: nothing else is asked for.
* `Registry.compile_decided_by_policy`: all of this for a resolved path.
* `Registry.writing_choices_leave_reading`: the policy and the setter of the caller only have a part
  in writing.
-/

namespace MemberAccess

variable {U : Universe} {r : Registry U} {T V : U.Ty} {p q : Path U} {c : Compiler}

/-! ### Refusals -/

namespace Compiler

/-- **Why the policy refuses to write a path,** with the error that tells it. A reason only counts
if none of those before it does, and of the members that can not be borrowed the first is told. -/
inductive Refuses (c : Compiler) (p : Path U) : AccessorError → Prop
  | readOnly (hset : p.terminal.member.isWritable = false) :
      Refuses c p (.inaccessibleMember p.terminal.member.name .readOnly)
  | nonPublic (hset : p.terminal.member.isWritable = true)
      (hmay : ¬c.MayWrite p.terminal.member) :
      Refuses c p (.inaccessibleMember p.terminal.member.name .nonPublic)
  | notTraversable {front back : List (Descriptor U)} {d : Descriptor U}
      (hset : p.terminal.member.isWritable = true) (hmay : c.MayWrite p.terminal.member)
      (hparents : p.parents = front ++ d :: back)
      (hfront : ∀ e ∈ front, e.member.isTraversable = true)
      (hd : d.member.isTraversable = false) :
      Refuses c p (.inaccessibleMember d.member.name .notMutablyTraversable)

/-- **What it takes to write a path.** -/
structure Permits (c : Compiler) (p : Path U) : Prop where
  writable : p.terminal.member.isWritable = true
  mayWrite : c.MayWrite p.terminal.member
  traversable : ∀ d ∈ p.parents, d.member.isTraversable = true

/-! ### The decision -/

/-- The policy decides for every path. -/
theorem permits_or_refuses (c : Compiler) (p : Path U) : c.Permits p ∨ ∃ e, c.Refuses p e := by
  cases hset : p.terminal.member.isWritable with
  | false => exact .inr ⟨_, .readOnly hset⟩
  | true =>
      by_cases hmay : c.MayWrite p.terminal.member
      · cases hcompound : p.compoundSetter p.value p.value with
        | ok s => exact .inl ⟨hset, hmay, (Path.compoundSetter_cases hcompound).2⟩
        | error e =>
            obtain ⟨front, d, back, hparents, hfront, hd, -⟩ :=
              Path.compoundSetter_eq_error_iff.1 hcompound
            exact .inr ⟨_, .notTraversable hset hmay hparents hfront hd⟩
      · exact .inr ⟨_, .nonPublic hset hmay⟩

/-- What the policy refuses gets no setter. -/
theorem Refuses.setter_eq {e : AccessorError} (h : c.Refuses p e) :
    c.setter p T V = .error e := by
  cases h with
  | readOnly hset => exact setter_of_readOnly hset
  | nonPublic hset hmay => exact setter_of_not_mayWrite hset hmay
  | @notTraversable front back d hset hmay hparents hfront hd =>
      have hne : p.parents ≠ [] := by simp [hparents]
      have htyped : (p.typed? T V).bind Handles.set = none := by
        rw [Path.typed?_of_parents hne, Option.bind_none]
      rw [setter_of_not_typed hset hmay fun _ => htyped]
      exact Path.compoundSetter_eq_error_iff.2 ⟨front, d, back, hparents, hfront, hd, rfl⟩

/-- What the policy permits gets a setter. -/
theorem Permits.exists_setter (h : c.Permits p) : ∃ s, c.setter p T V = .ok s := by
  by_cases htyped : p.terminal.member.accessibility = .isPublic →
      (p.typed? T V).bind Handles.set = none
  · rw [setter_of_not_typed h.writable h.mayWrite htyped,
      Path.compoundSetter_of_traversable h.traversable]
    exact ⟨_, rfl⟩
  · obtain ⟨hpublic, hset⟩ := Classical.not_imp.1 htyped
    obtain ⟨set, hset⟩ := Option.ne_none_iff_exists'.1 hset
    exact ⟨_, setter_of_typed h.writable hpublic hset⟩

/-- **A setter is missing** exactly for the reasons of the policy. -/
theorem setter_eq_error_iff {e : AccessorError} :
    c.setter p T V = .error e ↔ c.Refuses p e := by
  refine ⟨fun h => ?_, Refuses.setter_eq⟩
  rcases c.permits_or_refuses p with hpermits | ⟨f, hrefuses⟩
  · obtain ⟨s, hs⟩ := hpermits.exists_setter (T := T) (V := V)
    cases h.symm.trans hs
  · obtain rfl : e = f := Except.error.inj (h.symm.trans hrefuses.setter_eq)
    exact hrefuses

/-- **There is a setter** exactly for what the policy permits. -/
theorem exists_setter_iff : (∃ s, c.setter p T V = .ok s) ↔ c.Permits p := by
  refine ⟨fun ⟨s, hs⟩ => ?_, Permits.exists_setter⟩
  rcases c.permits_or_refuses p with hpermits | ⟨f, hrefuses⟩
  · exact hpermits
  · cases hs.symm.trans hrefuses.setter_eq

end Compiler

/-! ### What is written -/

/-- The only member of a resolution belongs to the type in which it is found. -/
theorem Registry.Resolves.owner_of_single {owner : TypeInfo U} {names : List String}
    {d : Descriptor U} (h : r.Resolves owner names [d]) : d.member.owner = owner.id := by
  cases h with
  | last _ _ howner => exact howner
  | step _ _ howner _ _ => exact howner

/-- **A resolved path of one member has typed handles,** for its own types. -/
theorem Registry.Resolves.exists_typed? {names : List String}
    (h : r.Resolves p.root names p.members) (hsimple : p.members.length = 1)
    (hroot : p.root.id = T) (hvalue : p.value = V) :
    ∃ k : Handles U T V, p.terminal.member.handles = ⟨T, V, k⟩ ∧ p.typed? T V = some k := by
  obtain ⟨d, hd⟩ := List.length_eq_one_iff.1 hsimple
  have hmembers : p.members = [] ++ [d] := hd
  obtain ⟨-, rfl⟩ := Path.parents_terminal_of_members hmembers
  rw [hd] at h
  have howner : p.terminal.member.handles.owner = T := h.owner_of_single.trans hroot
  have hvalue : p.terminal.member.handles.value = V := hvalue
  subst howner hvalue
  refine ⟨p.terminal.member.handles.handles, rfl, ?_⟩
  have hsimple : p.isSimple = true := decide_eq_true hsimple
  rw [Path.typed?, if_pos hsimple]
  exact ErasedHandles.typed?_self _ _ _

/-- **How a setter writes the last member of a path.** A public member of the root is written by its
own typed setter, any other in its borrowed owner: through its own borrow if it is a field that has
one, and else by its setter, which it has. -/
structure Path.WrittenBy (p : Path U) (s : Setter U T V) : Prop where
  direct_iff : s.strategy = .direct ↔
    p.members.length = 1 ∧ p.terminal.member.accessibility = .isPublic
  compound_iff : s.strategy = .compound ↔
    ¬(p.members.length = 1 ∧ p.terminal.member.accessibility = .isPublic)
  direct {set : U.Val T → U.Val V → U.Val T} (h : s = .direct set) :
    ∃ k : Handles U T V, p.terminal.member.handles = ⟨T, V, k⟩ ∧ k.set = some set
  compound {parents : Chain U} {assign : Assign U} (h : s = .compound parents assign) :
    assign.member = p.terminal.member ∧
      (assign.mode = .slot ↔
        p.terminal.member.kind = .field ∧ p.terminal.member.isTraversable = true) ∧
      (assign.mode = .setter → p.terminal.member.isWritable = true)

/-- The last member of a path is what is assigned, through its borrow if it is a field that has
one. -/
theorem Path.assign_spec (p : Path U) :
    p.assign.member = p.terminal.member ∧
      (p.assign.mode = .slot ↔
        p.terminal.member.kind = .field ∧ p.terminal.member.isTraversable = true) := by
  rw [assign]
  by_cases hslot : p.terminal.member.kind = .field ∧ p.terminal.member.isTraversable = true
  · simp only [hslot, and_self, if_true]
    exact ⟨rfl, by simp only [Assign.mode]⟩
  · simp only [hslot, if_false]
    exact ⟨rfl, by simp only [Assign.mode, reduceCtorEq]⟩

/-- **The setter of a resolved path** writes its last member. -/
theorem Path.writtenBy_of_setter {names : List String} (h : r.Resolves p.root names p.members)
    (hroot : p.root.id = T) (hvalue : p.value = V) {s : Setter U T V}
    (hs : c.setter p T V = .ok s) : p.WrittenBy s := by
  obtain ⟨hset, ⟨set, hpublic, htyped, rfl⟩ | ⟨hpolicy, rfl, -⟩⟩ := Compiler.setter_cases hs
  · obtain ⟨k, hk, hkset⟩ := Option.bind_eq_some_iff.1 htyped
    obtain ⟨hparents, hhandles⟩ := Path.typed?_cases hk
    have hsimple : p.members.length = 1 := by
      rw [← p.parents_append_terminal, hparents]
      rfl
    have hhandles := ErasedHandles.eq_of_typed? hhandles
    refine ⟨iff_of_true rfl ⟨hsimple, hpublic⟩,
      iff_of_false (fun h => by cases h) (not_not_intro ⟨hsimple, hpublic⟩), fun h => ?_,
      fun h => (by cases h)⟩
    cases h
    exact ⟨k, hhandles, hkset⟩
  · have hnot : ¬(p.members.length = 1 ∧ p.terminal.member.accessibility = .isPublic) := by
      rintro ⟨hsimple, hpublic⟩
      rcases hpolicy with ⟨hnonPublic, -⟩ | ⟨-, hnone⟩
      · cases hpublic.symm.trans hnonPublic
      · -- A member of the root with a setter has a typed one.
        obtain ⟨k, hhandles, hk⟩ := h.exists_typed? hsimple hroot hvalue
        rw [hk, Option.bind_some] at hnone
        rw [Member.isWritable, hhandles, ErasedHandles.hasSet, hnone] at hset
        cases hset
    refine ⟨iff_of_false (fun h => by cases h) hnot, iff_of_true rfl hnot,
      fun h => (by cases h), fun h => ?_⟩
    cases h
    exact ⟨p.assign_spec.1, p.assign_spec.2, fun _ => hset⟩

/-! ### What the policy does not ask for -/

/-- Members on the way that the policy must not tell apart: they bear the same name, and both can be
borrowed or neither. What they are otherwise, and who may write them, may differ. -/
structure Descriptor.SameToPolicy (d e : Descriptor U) : Prop where
  name : e.member.name = d.member.name
  isTraversable : e.member.isTraversable = d.member.isTraversable

/-- **Paths that the policy must not tell apart:** they have the same root and the same last member,
and the members before it are the same to the policy. -/
structure Path.SameToPolicy (p q : Path U) : Prop where
  root : q.root = p.root
  terminal : q.terminal = p.terminal
  parents : List.Forall₂ Descriptor.SameToPolicy p.parents q.parents

namespace Path.SameToPolicy

/-- Paths that are the same to policies are equally long. -/
theorem length_eq (h : p.SameToPolicy q) : q.members.length = p.members.length := by
  rw [← q.parents_append_terminal, ← p.parents_append_terminal, List.length_append,
    List.length_append, h.parents.length_eq, List.length_singleton, List.length_singleton]

/-- Their last members have the same handles of known types. -/
theorem typed?_eq (h : p.SameToPolicy q) : q.typed? T V = p.typed? T V := by
  rw [typed?, typed?, isSimple, isSimple, h.length_eq, h.terminal]

/-- Their types are accepted alike. -/
theorem checkTypes_eq (h : p.SameToPolicy q) : q.checkTypes T V = p.checkTypes T V := by
  rw [checkTypes, checkTypes, value, value, h.root, h.terminal]

/-- The first member that can not be borrowed bears the same name on both paths. -/
theorem map_find?_eq {ds es : List (Descriptor U)}
    (h : List.Forall₂ Descriptor.SameToPolicy ds es) :
    (es.find? fun e => !e.member.isTraversable).map (·.member.name) =
      (ds.find? fun d => !d.member.isTraversable).map (·.member.name) := by
  induction h with
  | nil => rfl
  | @cons d e _ _ hde _ ih =>
      rw [List.find?_cons, List.find?_cons, hde.isTraversable]
      cases d.member.isTraversable with
      | true => exact ih
      | false => exact congrArg some hde.name

/-- They are set through the owner of the last member by the same strategy, or refused alike. -/
theorem map_strategy_compoundSetter (h : p.SameToPolicy q) :
    (q.compoundSetter T V).map Setter.strategy = (p.compoundSetter T V).map Setter.strategy := by
  have hfind := map_find?_eq h.parents
  rw [compoundSetter, compoundSetter]
  cases hp : p.parents.find? fun d => !d.member.isTraversable with
  | none =>
      rw [hp, Option.map_none, Option.map_eq_none_iff] at hfind
      simp only [hfind]
      rfl
  | some d =>
      rw [hp, Option.map_some] at hfind
      obtain ⟨e, he, hname⟩ := Option.map_eq_some_iff.1 hfind
      simp only [he, Member.refuse, hname, Except.map]

/-- The setter of both paths is refused for the same reason, or is of the same strategy. -/
theorem map_strategy_setter (h : p.SameToPolicy q) :
    (c.setter q T V).map Setter.strategy = (c.setter p T V).map Setter.strategy := by
  have hcompound := h.map_strategy_compoundSetter (T := T) (V := V)
  rw [Compiler.setter, Compiler.setter, h.terminal, h.typed?_eq]
  cases p.terminal.member.isWritable with
  | false => rfl
  | true =>
      simp only [Bool.not_true, Bool.false_eq_true, if_false]
      cases p.terminal.member.accessibility with
      | nonPublic =>
          cases c.allowNonPublicWrite with
          | false => rfl
          | true => exact hcompound
      | isPublic =>
          cases (p.typed? T V).bind Handles.set with
          | some set => rfl
          | none => exact hcompound

/-- **Paths that the policy must not tell apart** are refused with the same error, or get accessors
of the same strategy. -/
theorem map_strategy_compile (h : p.SameToPolicy q) :
    (c.compile T V q).value.map Accessor.strategy =
      (c.compile T V p).value.map Accessor.strategy := by
  have hcheck := h.checkTypes_eq (T := T) (V := V)
  cases hp : p.checkTypes T V with
  | error e =>
      rw [Compiler.value_compile_of_error hp, Compiler.value_compile_of_error (hcheck.trans hp)]
  | ok _ =>
      have hsetter := h.map_strategy_setter (T := T) (V := V) (c := c)
      rw [Compiler.value_compile hp, Compiler.value_compile (hcheck.trans hp)]
      cases hsp : c.setter p T V <;> cases hsq : c.setter q T V <;> rw [hsp, hsq] at hsetter <;>
        exact hsetter

end Path.SameToPolicy

/-! ### Compilation -/

/-- **The policy decides the compilation of a path** for two types. The root type is compared first,
then the value type. If both are right, the policy refuses the path or permits it; an accessor that
is made writes the last member, and nothing about the members before it matters but their names
and whether they can be borrowed. -/
structure Compiler.DecidesBy (c : Compiler) (T V : U.Ty) (p : Path U) : Prop where
  rootType : p.root.id ≠ T → (c.compile T V p).value =
    .error (.invalidPath (.rootTypeMismatch (U.name T) p.root.name))
  valueType : p.root.id = T → p.value ≠ V → (c.compile T V p).value =
    .error (.invalidPath (.valueTypeMismatch p.terminal.member.name (U.name V)
      p.terminal.member.valueName))
  refused : p.root.id = T → p.value = V → ∀ e,
    (c.compile T V p).value = .error e ↔ c.Refuses p e
  permitted : p.root.id = T → p.value = V →
    ((∃ a, (c.compile T V p).value = .ok a) ↔ c.Permits p)
  written : ∀ a, (c.compile T V p).value = .ok a → p.WrittenBy a.setter
  unread : ∀ q, p.SameToPolicy q → (c.compile T V q).value.map Accessor.strategy =
    (c.compile T V p).value.map Accessor.strategy

/-- **The policy decides the compilation** of every resolved path. -/
theorem Registry.compile_decided_by_policy {root : TypeInfo U} {names : List String}
    (h : r.resolve root names = some (.ok p)) (c : Compiler) (T V : U.Ty) :
    c.DecidesBy T V p := by
  obtain ⟨hroot, hresolves⟩ := resolves_of_resolve h
  have hresolves : r.Resolves p.root names p.members := hroot ▸ hresolves
  refine ⟨fun hT => ?_, fun hT hV => ?_, fun hT hV e => ?_, fun hT hV => ?_, fun a ha => ?_,
    fun q hq => hq.map_strategy_compile⟩
  · exact Compiler.value_compile_of_error (Path.checkTypes_of_root hT)
  · exact Compiler.value_compile_of_error (Path.checkTypes_of_value hT hV)
  · rw [Compiler.value_compile (Path.checkTypes_eq_ok hT hV), ← Compiler.setter_eq_error_iff]
    cases c.setter p T V with
    | error f => simp only [Except.map, Except.error.injEq]
    | ok s => simp only [Except.map, reduceCtorEq]
  · rw [Compiler.value_compile (Path.checkTypes_eq_ok hT hV), ← Compiler.exists_setter_iff]
    cases c.setter p T V with
    | error f => simp only [Except.map, reduceCtorEq, exists_false]
    | ok s => simp only [Except.map, Except.ok.injEq, exists_eq']
  · obtain ⟨hT, hV, s, hs, rfl⟩ := Compiler.compile_cases ha
    exact Path.writtenBy_of_setter hresolves hT hV hs

/-- In the objects that may be linked to a next one, the policy decides the compilation of the path
to the count of the next. -/
theorem Declarations.linked_decided_by_policy :
    ∃ p, (linked.registry []).resolve ((linked.registry []).info (Ty.declared 0))
        ["next", "count"] = some (.ok p) ∧
      (p.root.id = Ty.declared 0 ∧ p.value = Ty.prim .i32) ∧
      Compiler.DecidesBy ⟨false⟩ (Ty.declared 0) (Ty.prim .i32) p := by
  have htest : ((linked.registry []).resolve ((linked.registry []).info (Ty.declared 0))
      ["next", "count"]).any (fun found => found.toOption.any fun p =>
        decide (p.root.id = Ty.declared 0 ∧ p.value = Ty.prim .i32)) = true := by
    decide +kernel
  obtain ⟨p, hp, htypes⟩ := Registry.exists_path_of_any htest
  exact ⟨p, hp, of_decide_eq_true htypes,
    Registry.compile_decided_by_policy hp ⟨false⟩ (Ty.declared 0) (Ty.prim .i32)⟩

/-! ### Other policies, other setters -/

/-- **What becomes of an outcome** when members that are not public may be written as well. A
success stays, and so does every error but the one that the policy causes. In the place of that
error the member is written in its borrowed owner, unless that can not be borrowed. -/
inductive Relaxes : Except AccessorError (Accessor U T V) → Except AccessorError (Accessor U T V) →
    Prop
  | succeeds {a b : Accessor U T V} (strategy : b.strategy = a.strategy)
      (get : ∀ x, b.get x = a.get x) (set : ∀ x v, b.set x v = a.set x v) :
      Relaxes (.ok a) (.ok b)
  | fails {e : AccessorError} (he : ∀ m, e ≠ .inaccessibleMember m .nonPublic) :
      Relaxes (.error e) (.error e)
  | granted {m : String} {b : Accessor U T V} (hb : b.strategy = .compound) :
      Relaxes (.error (.inaccessibleMember m .nonPublic)) (.ok b)
  | stopped {m n : String} :
      Relaxes (.error (.inaccessibleMember m .nonPublic))
        (.error (.inaccessibleMember n .notMutablyTraversable))

/-- A setter is missing because of the policy only for a member that is not public. -/
theorem Compiler.Refuses.not_mayWrite {m : String}
    (h : c.Refuses p (.inaccessibleMember m .nonPublic)) : ¬c.MayWrite p.terminal.member := by
  cases h with
  | nonPublic _ hmay => exact hmay

/-- The policy has no part in public members. -/
theorem Compiler.relaxes_of_public (hcheck : p.checkTypes T V = .ok ())
    (hpublic : p.terminal.member.accessibility = .isPublic) :
    Relaxes ((⟨false⟩ : Compiler).compile T V p).value
      ((⟨true⟩ : Compiler).compile T V p).value := by
  rw [value_compile hcheck, value_compile hcheck, setter_of_public (c := ⟨false⟩) hpublic ⟨true⟩]
  cases hs : (⟨false⟩ : Compiler).setter p T V with
  | ok s => exact .succeeds rfl (fun _ => rfl) fun _ _ => rfl
  | error e =>
      refine .fails fun m he => ?_
      subst he
      exact (setter_eq_error_iff.1 hs).not_mayWrite (.inl hpublic)

/-- A member that is not public is written in its borrowed owner, or not at all. -/
theorem Compiler.relaxes_of_nonPublic (hcheck : p.checkTypes T V = .ok ())
    (hset : p.terminal.member.isWritable = true)
    (hnot : p.terminal.member.accessibility ≠ .isPublic) :
    Relaxes ((⟨false⟩ : Compiler).compile T V p).value
      ((⟨true⟩ : Compiler).compile T V p).value := by
  have hmay : ¬(⟨false⟩ : Compiler).MayWrite p.terminal.member := by
    rintro (hpublic | hallow)
    · exact hnot hpublic
    · cases hallow
  rw [value_compile hcheck, value_compile hcheck, setter_of_not_mayWrite hset hmay,
    setter_of_not_typed hset (.inr rfl) fun hpublic => absurd hpublic hnot]
  cases hcompound : p.compoundSetter T V with
  | ok s =>
      obtain ⟨rfl, -⟩ := Path.compoundSetter_cases hcompound
      exact .granted rfl
  | error e =>
      obtain ⟨_, _, _, -, -, -, rfl⟩ := Path.compoundSetter_eq_error_iff.1 hcompound
      exact .stopped

/-- **The policy that allows more** relaxes the compilation of every path. -/
theorem Compiler.relaxes_compile (p : Path U) :
    Relaxes ((⟨false⟩ : Compiler).compile T V p).value
      ((⟨true⟩ : Compiler).compile T V p).value := by
  cases hcheck : p.checkTypes T V with
  | error e =>
      rw [value_compile_of_error hcheck, value_compile_of_error hcheck]
      exact .fails fun m h => by cases h
  | ok _ =>
      by_cases hpublic : p.terminal.member.accessibility = .isPublic
      · exact relaxes_of_public hcheck hpublic
      · cases hset : p.terminal.member.isWritable with
        | false =>
            rw [value_compile hcheck, value_compile hcheck, setter_of_readOnly hset,
              setter_of_readOnly hset]
            exact .fails fun m h => by cases h
        | true => exact relaxes_of_nonPublic hcheck hset hpublic

/-- Going on from a specification under two policies keeps what they are to each other on each
path. -/
theorem Registry.rel_withPath {root : TypeInfo U} {spec : PathSpec}
    {next next' : Path U → Logged (Except AccessorError (Accessor U T V))}
    (h : ∀ p, Relaxes (next p).value (next' p).value) :
    Option.Rel (fun strict lax => Relaxes strict.value lax.value) (r.withPath root spec next)
      (r.withPath root spec next') := by
  rw [withPath, withPath]
  cases r.parse root spec with
  | none => exact .none
  | some parsed =>
      refine .some ?_
      obtain ⟨value, log⟩ := parsed
      cases value with
      | error e => exact .fails fun m he => by cases he
      | ok p => exact h p

/-- **The policy and the setter only have a part in writing.** Under the policy that allows more,
the compilation of every specification is relaxed. A path is compiled with a setter of the caller's
exactly if its types are right; the accessor then writes by that setter alone, also where the path
misses a value, and it reads as the accessors of every policy do. -/
theorem Registry.writing_choices_leave_reading (r : Registry U) (T V : U.Ty) (spec : PathSpec) :
    Option.Rel (fun strict lax => Relaxes strict.value lax.value)
        (Compiler.compileSpec ⟨false⟩ r T V spec) (Compiler.compileSpec ⟨true⟩ r T V spec) ∧
      ∀ (root : TypeInfo U) (p : Path U) (log : List LogRecord),
        r.parse root spec = some ⟨.ok p, log⟩ → ∀ set : U.Val T → U.Val V → U.Val T,
          ((∃ b, (Compiler.compileWithSetter T V set p).value = .ok b) ↔
            p.root.id = T ∧ p.value = V) ∧
          ∀ b, (Compiler.compileWithSetter T V set p).value = .ok b →
            b.strategy = .explicit ∧ (∀ x v, b.set x v = (.ok (), set x v)) ∧
              ∀ (c : Compiler) a, (c.compile T V p).value = .ok a → ∀ x, b.get x = a.get x := by
  refine ⟨rel_withPath Compiler.relaxes_compile, fun root p log _ set => ⟨⟨?_, ?_⟩, fun b hb => ?_⟩⟩
  · rintro ⟨b, hb⟩
    obtain ⟨hroot, hvalue, -⟩ := Compiler.compileWithSetter_cases hb
    exact ⟨hroot, hvalue⟩
  · rintro ⟨hroot, hvalue⟩
    exact ⟨_, Compiler.value_compileWithSetter hroot hvalue set⟩
  · obtain ⟨-, -, rfl⟩ := Compiler.compileWithSetter_cases hb
    refine ⟨rfl, fun x v => rfl, fun c a ha x => ?_⟩
    obtain ⟨-, -, s, -, rfl⟩ := Compiler.compile_cases ha
    rfl

/-- Objects with a value that is shown and one that is kept secret. -/
def Declarations.guarded : Declarations :=
  ⟨"Row", [⟨[.prim .i32, .prim .i32],
    .composite [⟨"shown", .field, .isPublic, 0, 0, true, true⟩,
      ⟨"secret", .property, .nonPublic, 0, 1, false, true⟩]⟩]⟩

/-- The secret is not written by default. It is written along the path if that is allowed, and with
a setter of the caller's in any case. -/
theorem Declarations.guarded_choices :
    (Compiler.compileSpec ⟨false⟩ (guarded.registry []) (Ty.declared 0) (Ty.prim .i32)
        (.text "|x| x.secret")).map (·.value.map Accessor.strategy) =
          some (.error (.inaccessibleMember "secret" .nonPublic)) ∧
      Option.Rel (fun strict lax => Relaxes strict.value lax.value)
        (Compiler.compileSpec ⟨false⟩ (guarded.registry []) (Ty.declared 0) (Ty.prim .i32)
          (.text "|x| x.secret"))
        (Compiler.compileSpec ⟨true⟩ (guarded.registry []) (Ty.declared 0) (Ty.prim .i32)
          (.text "|x| x.secret")) ∧
      ∃ p log, (guarded.registry []).parse ((guarded.registry []).info (Ty.declared 0))
          (.text "|x| x.secret") = some ⟨.ok p, log⟩ ∧
        ∃ a b : Accessor guarded.universe (Ty.declared 0) (Ty.prim .i32),
          (Compiler.compile ⟨true⟩ (Ty.declared 0) (Ty.prim .i32) p).value = .ok a ∧
          (Compiler.compileWithSetter (Ty.declared 0) (Ty.prim .i32) (fun x _ => x) p).value =
            .ok b ∧
          (∀ x v, b.set x v = (.ok (), x)) ∧ ∀ x, b.get x = a.get x := by
  obtain ⟨hrelaxes, hpath⟩ := Registry.writing_choices_leave_reading (guarded.registry [])
    (Ty.declared 0) (Ty.prim .i32) (.text "|x| x.secret")
  have htest : ((guarded.registry []).parse ((guarded.registry []).info (Ty.declared 0))
      (.text "|x| x.secret")).any (fun found => found.value.toOption.any fun p =>
        decide (p.root.id = Ty.declared 0 ∧ p.value = Ty.prim .i32) &&
          (Compiler.compile (U := guarded.universe) ⟨true⟩ (Ty.declared 0) (Ty.prim .i32)
            p).value.toOption.any fun _ => true) = true := by
    decide +kernel
  obtain ⟨p, log, hparse, hp⟩ := Logged.exists_of_any htest
  obtain ⟨htypes, hcompile⟩ := Bool.and_eq_true_iff.1 hp
  obtain ⟨a, ha, -⟩ := exists_eq_ok_of_any hcompile
  obtain ⟨hiff, hall⟩ := hpath _ p log hparse fun x _ => x
  obtain ⟨b, hb⟩ := hiff.2 (of_decide_eq_true htypes)
  obtain ⟨-, hset, hget⟩ := hall b hb
  exact ⟨by decide +kernel, hrelaxes, p, log, hparse, a, b, ha, hb, hset, hget _ a ha⟩

end MemberAccess
