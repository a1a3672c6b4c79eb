import MemberAccess.Proofs.Accessor.Focus
import Mathlib.Order.Bounds.Defs

/-!
# Where values are missing

On a root, a walk along a path can stop in one way only: one of the wrappers after some member is
empty. `EmptyAfter` says after which, by the functions of the members and wrappers alone. A getter
tells that position, whether it is there for reading or for writing; a setter fails where the getter
does, and a setter that fails leaves the root as it was.

## Main definitions

* `Wrapper.OpensTo`, `Wrapper.SomeEmpty`: wrappers that lead to a content, or of which one is empty.
* `EmptyAfter`: one of the wrappers after a member of a path is empty.

## Main results

* `Chain.readSteps_eq_missing_iff`: where a walk of reads stops.
* `Registry.compiled_accessor_fails_alike`: reading and writing fail together, and a failed write
  changes nothing.
-/

namespace MemberAccess

variable {U : Universe} {r : Registry U} {p : Path U}

/-! ### Empty wrappers -/

namespace Wrapper

/-- **Wrappers lead to a content,** one inside the other. -/
inductive OpensTo : List (Wrapper U) → Dyn U → Dyn U → Prop
  | nil {d : Dyn U} : OpensTo [] d d
  | cons {w : Wrapper U} {ws : List (Wrapper U)} {d e f : Dyn U} (h : w.unwrap d = some e)
      (inner : OpensTo ws e f) : OpensTo (w :: ws) d f

/-- **One of the wrappers is empty,** and those around it are not. -/
inductive SomeEmpty : List (Wrapper U) → Dyn U → Prop
  | here {w : Wrapper U} {ws : List (Wrapper U)} {d : Dyn U} (h : w.unwrap d = none) :
      SomeEmpty (w :: ws) d
  | inside {w : Wrapper U} {ws : List (Wrapper U)} {d e : Dyn U} (h : w.unwrap d = some e)
      (inner : SomeEmpty ws e) : SomeEmpty (w :: ws) d

/-- Wrappers are opened to what is inside all of them. -/
theorem openAll_eq_some_iff {ws : List (Wrapper U)} {d f : Dyn U} :
    openAll ws d = some f ↔ OpensTo ws d f := by
  refine ⟨fun h => ?_, fun h => ?_⟩
  · induction ws generalizing d with
    | nil =>
        obtain rfl := Option.some.inj h
        exact .nil
    | cons w ws ih =>
        obtain ⟨e, he, hf⟩ := Option.bind_eq_some_iff.1 h
        exact .cons he (ih hf)
  · induction h with
    | nil => rfl
    | cons h _ ih => rw [openAll, h, Option.bind_some, ih]

/-- Wrappers cannot be opened exactly if one of them is empty. -/
theorem openAll_eq_none_iff {ws : List (Wrapper U)} {d : Dyn U} :
    openAll ws d = none ↔ SomeEmpty ws d := by
  refine ⟨fun h => ?_, fun h => ?_⟩
  · induction ws generalizing d with
    | nil => cases h
    | cons w ws ih =>
        cases hw : w.unwrap d with
        | none => exact .here hw
        | some e =>
            rw [openAll, hw, Option.bind_some] at h
            exact .inside hw (ih h)
  · induction h with
    | here h => rw [openAll, h, Option.bind_none]
    | inside h _ ih => rw [openAll, h, Option.bind_some, ih]

end Wrapper

/-- **One of the wrappers after a member is empty:** the members and wrappers before it lead to an
owner of the member, and in the value of the member an empty wrapper comes up. -/
inductive EmptyAfter : List (Descriptor U) → Dyn U → Nat → Prop
  | here {d : Descriptor U} {ds : List (Descriptor U)} {owner value : Dyn U}
      (hread : d.member.handles.read owner = some value)
      (hempty : Wrapper.SomeEmpty d.unwraps value) : EmptyAfter (d :: ds) owner 0
  | later {d : Descriptor U} {ds : List (Descriptor U)} {owner value inner : Dyn U} {i : Nat}
      (hread : d.member.handles.read owner = some value)
      (hopens : Wrapper.OpensTo d.unwraps value inner) (rest : EmptyAfter ds inner i) :
      EmptyAfter (d :: ds) owner (i + 1)

/-- There is one position at most after which a wrapper is empty: behind it there is no value. -/
theorem EmptyAfter.unique {ds : List (Descriptor U)} {x : Dyn U} {i j : Nat}
    (hi : EmptyAfter ds x i) (hj : EmptyAfter ds x j) : i = j := by
  induction hi generalizing j with
  | here hread hempty =>
      cases hj with
      | here _ _ => rfl
      | later hread' hopens _ =>
          obtain rfl := Option.some.inj (hread.symm.trans hread')
          have hnone := Wrapper.openAll_eq_none_iff.2 hempty
          exact absurd (hnone.symm.trans (Wrapper.openAll_eq_some_iff.2 hopens)) (by simp)
  | later hread hopens _ ih =>
      cases hj with
      | here hread' hempty =>
          obtain rfl := Option.some.inj (hread.symm.trans hread')
          have hnone := Wrapper.openAll_eq_none_iff.2 hempty
          exact absurd (hnone.symm.trans (Wrapper.openAll_eq_some_iff.2 hopens)) (by simp)
      | later hread' hopens' hrest =>
          obtain rfl := Option.some.inj (hread.symm.trans hread')
          have hinner := (Wrapper.openAll_eq_some_iff.2 hopens).symm.trans
            (Wrapper.openAll_eq_some_iff.2 hopens')
          obtain rfl := Option.some.inj hinner
          exact congrArg (· + 1) (ih hrest)

/-! ### Walks that miss a value -/

/-- **A walk of reads misses a value** exactly where a wrapper is empty, and tells the member before
it with its position. -/
theorem Chain.readSteps_eq_missing_iff {ds : List (Descriptor U)} {x : Dyn U} {start i : Nat}
    {name : String} :
    readSteps (stepsFrom start ds) x = .error (.missingIntermediate name i) ↔
      ∃ j, i = start + j ∧ EmptyAfter ds x j ∧ (ds.map (·.member.name))[j]? = some name := by
  induction ds generalizing x start with
  | nil =>
      constructor
      · intro h
        cases h
      · rintro ⟨j, -, hempty, -⟩
        cases hempty
  | cons d ds ih =>
      simp only [stepsFrom, readSteps, Descriptor.step]
      cases hread : d.member.handles.read x with
      | none =>
          constructor
          · intro h
            cases h
          · rintro ⟨j, -, ⟨hread', -⟩ | ⟨hread', -, -⟩, -⟩
            all_goals cases hread.symm.trans hread'
      | some value =>
          cases hopen : Wrapper.openAll d.unwraps value with
          | none =>
              simp only [hopen, Except.error.injEq, Step.missing, Failure.missingIntermediate.injEq]
              have hempty : EmptyAfter (d :: ds) x 0 :=
                .here hread (Wrapper.openAll_eq_none_iff.1 hopen)
              constructor
              · rintro ⟨rfl, rfl⟩
                exact ⟨0, rfl, hempty, rfl⟩
              · rintro ⟨j, rfl, hj, hname⟩
                obtain rfl := hempty.unique hj
                exact ⟨Option.some.inj hname, rfl⟩
          | some inner =>
              have hopens := Wrapper.openAll_eq_some_iff.1 hopen
              simp only [hopen, ih]
              constructor
              · rintro ⟨j, rfl, hrest, hname⟩
                exact ⟨j + 1, by omega, .later hread hopens hrest, hname⟩
              · rintro ⟨j, rfl, ⟨hread', hempty⟩ | ⟨hread', hopens', hrest⟩, hname⟩
                · obtain rfl := Option.some.inj (hread.symm.trans hread')
                  cases hopen.symm.trans (Wrapper.openAll_eq_none_iff.2 hempty)
                · obtain rfl := Option.some.inj (hread.symm.trans hread')
                  have hinner := hopen.symm.trans (Wrapper.openAll_eq_some_iff.2 hopens')
                  obtain rfl := Option.some.inj hinner
                  exact ⟨_, by omega, hrest, hname⟩

/-- **The getter of a typed path** misses a value exactly where a wrapper is empty. -/
theorem Path.Typed.getter_eq_missing_iff (hp : p.Typed r)
    {x : U.Val p.root.id} {i : Nat} {name : String} :
    (p.getter p.root.id p.value).get x = .error (.missingIntermediate name i) ↔
      EmptyAfter p.members ⟨p.root.id, x⟩ i ∧ p.names[i]? = some name := by
  have hmembers := hp.getter_get x
  have hwalk : Chain.readSteps (Chain.stepsFrom 0 p.members) ⟨p.root.id, x⟩ =
        .error (.missingIntermediate name i) ↔
      ∃ j, i = 0 + j ∧ EmptyAfter p.members ⟨p.root.id, x⟩ j ∧ p.names[j]? = some name :=
    Chain.readSteps_eq_missing_iff
  simp only [Nat.zero_add, exists_eq_left'] at hwalk
  rw [← hwalk, hmembers]
  cases (p.getter p.root.id p.value).get x with
  | error f => simp only [Except.map, Except.error.injEq]
  | ok v => simp only [Except.map, reduceCtorEq]

/-! ### Accessors -/

/-- **Reading and writing fail together, and a failed write changes nothing.** Let an accessor be
compiled, without a setter of the caller's, for a path that was parsed in a registry of lawful
descriptions. On each root, reading misses a value exactly if a wrapper after some member of the
path is empty, and tells the least such position and the name at it. Writing any value fails in the
same way, and then leaves the root as it was. -/
theorem Registry.compiled_accessor_fails_alike (hr : r.LawfulInfos) {T V : U.Ty} {spec : PathSpec}
    {log : List LogRecord} (hparse : r.parse (r.info T) spec = some ⟨.ok p, log⟩) {c : Compiler}
    {a : Accessor U T V} (ha : (c.compile T V p).value = .ok a) (x : U.Val T) :
    (∀ name i, a.get x = .error (.missingIntermediate name i) ↔
        IsLeast {j | EmptyAfter p.members ⟨T, x⟩ j} i ∧ p.names[i]? = some name) ∧
      (∀ v name i, (a.set x v).1 = .error (.missingIntermediate name i) ↔
        a.get x = .error (.missingIntermediate name i)) ∧
      ∀ v f, (a.set x v).1 = .error f → (a.set x v).2 = x := by
  obtain ⟨names, -, hroot, hresolves⟩ := resolves_of_parse hparse
  obtain ⟨rfl, rfl, s, hs, rfl⟩ := Compiler.compile_cases ha
  have hresolves : r.Resolves p.root names p.members := hroot ▸ hresolves
  have hp : p.Typed r := typed_of_resolves hr.toWellTyped hresolves
  obtain ⟨component, -, store, hfocus⟩ := Path.exists_focuses hr hroot hresolves hs
  refine ⟨fun name i => ?_, fun v name i => ?_, fun v f hf => ?_⟩
  · have hleast : IsLeast {j | EmptyAfter p.members ⟨p.root.id, x⟩ j} i ↔
        EmptyAfter p.members ⟨p.root.id, x⟩ i :=
      ⟨fun h => h.1, fun h => ⟨h, fun j hj => Nat.le_of_eq (h.unique hj)⟩⟩
    rw [hleast]
    exact hp.getter_eq_missing_iff
  · rcases hfocus.outcome x with ⟨o, fill, hs⟩ | ⟨f, hf⟩
    · rw [hfocus.set_ok hs, hfocus.get_ok hs]
      exact ⟨fun h => (nomatch h), fun h => (nomatch h)⟩
    · rw [hfocus.set_error hf, hfocus.get_error hf]
      exact ⟨fun h => congrArg Except.error (Except.error.inj h),
        fun h => congrArg Except.error (Except.error.inj h)⟩
  · rcases hfocus.outcome x with ⟨o, fill, hs⟩ | ⟨g, hg⟩
    · rw [hfocus.set_ok hs] at hf
      cases hf
    · rw [hfocus.set_error hg]

/-- In the objects that may be linked to a next one, reading and writing the count of the next fail
together. -/
theorem Declarations.linked_accessor_fails_alike :
    (Declarations.linked.registry []).LawfulInfos ∧
      ∃ p log, (Declarations.linked.registry []).parse
          ((Declarations.linked.registry []).info (Ty.declared 0)) (.text "|x| x.next.count") =
            some ⟨.ok p, log⟩ ∧
        ∃ a, (Compiler.compile ⟨false⟩ (Ty.declared 0) (Ty.prim .i32) p).value = .ok a ∧ ∀ x,
          (∀ name i, a.get x = .error (.missingIntermediate name i) ↔
              IsLeast {j | EmptyAfter p.members ⟨Ty.declared 0, x⟩ j} i ∧
                p.names[i]? = some name) ∧
            (∀ v name i, (a.set x v).1 = .error (.missingIntermediate name i) ↔
              a.get x = .error (.missingIntermediate name i)) ∧
            ∀ v f, (a.set x v).1 = .error f → (a.set x v).2 = x := by
  have hr := Declarations.linked.lawfulInfos_registry []
  have htest : ((Declarations.linked.registry []).parse
      ((Declarations.linked.registry []).info (Ty.declared 0)) (.text "|x| x.next.count")).any
        (fun found => found.value.toOption.any fun p =>
          (Compiler.compile ⟨false⟩ (Ty.declared 0) (Ty.prim .i32) p).value.isOk) = true := by
    decide +kernel
  obtain ⟨p, log, hparse, hcompile⟩ := Logged.exists_of_any htest
  refine ⟨hr, p, log, hparse, ?_⟩
  cases ha : (Compiler.compile ⟨false⟩ (Ty.declared 0) (Ty.prim .i32) p).value with
  | error e =>
      rw [ha] at hcompile
      cases hcompile
  | ok a => exact ⟨a, rfl, Registry.compiled_accessor_fails_alike hr hparse ha⟩

end MemberAccess
