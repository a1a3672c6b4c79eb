import MemberAccess.Proofs.Accessor.Policy

/-!
# Simple assigners agree with accessors

The typed setter of a member of the root can be had in two ways: as a simple assigner, and inside an
accessor that writes directly. The two are validated separately, and the checks do not come in the
same order: an assigner refuses a path of more than one member before all else, an accessor never
does. On a path of one member they decide alike. The last resorts of both, which would part them,
are never taken: a member of the root that has a setter has a typed one.

## Main definitions

* `Accessor.WritesBy`: an accessor that writes one member by a typed setter.
* `Agree`: an assigner and an accessor that decide alike.

## Main results

* `Path.agree_of_single`: on a path of one member the two decide alike.
* `Path.strategy_ne_direct`: a longer path is never written directly.
* `Registry.simpleAssigner_agrees`: both, for every specification.
-/

namespace MemberAccess

variable {U : Universe} {r : Registry U} {T V : U.Ty} {p : Path U}

/-! ### The checks of an assigner -/

namespace Path

/-- A path of more than one member is refused before all else. -/
theorem simpleAssigner_of_long (hlong : p.members.length ≠ 1) :
    p.simpleAssigner T V = .error (.invalidPath (.notSimple p.fullName)) := by
  have hsimple : p.isSimple = false := decide_eq_false hlong
  simp only [simpleAssigner, hsimple, Bool.not_false, if_true]

/-- Then the types are compared. -/
theorem simpleAssigner_of_types {e : InvalidPath} (hsingle : p.members.length = 1)
    (hcheck : p.checkTypes T V = .error e) :
    p.simpleAssigner T V = .error (.invalidPath e) := by
  have hsimple : p.isSimple = true := decide_eq_true hsingle
  simp only [simpleAssigner, hsimple, hcheck, Bool.not_true, Bool.false_eq_true, if_false]

/-- Then the member must have a setter. -/
theorem simpleAssigner_of_readOnly (hsingle : p.members.length = 1)
    (hcheck : p.checkTypes T V = .ok ()) (hset : p.terminal.member.isWritable = false) :
    p.simpleAssigner T V =
      .error (.inaccessibleMember p.terminal.member.name .readOnly) := by
  have hsimple : p.isSimple = true := decide_eq_true hsingle
  simp only [simpleAssigner, hsimple, hcheck, hset, Bool.not_true, Bool.not_false,
    Bool.false_eq_true, if_false, if_true, Member.refuse]

/-- Then the setter must be public. -/
theorem simpleAssigner_of_nonPublic (hsingle : p.members.length = 1)
    (hcheck : p.checkTypes T V = .ok ()) (hset : p.terminal.member.isWritable = true)
    (hnot : p.terminal.member.accessibility ≠ .isPublic) :
    p.simpleAssigner T V =
      .error (.inaccessibleMember p.terminal.member.name .nonPublic) := by
  have hsimple : p.isSimple = true := decide_eq_true hsingle
  simp only [simpleAssigner, hsimple, hcheck, hset, hnot, Bool.not_true, Bool.false_eq_true,
    if_false, if_true, ne_eq, not_false_eq_true, Member.refuse]

/-- What is left is the typed setter. -/
theorem simpleAssigner_of_typed (hsingle : p.members.length = 1)
    (hcheck : p.checkTypes T V = .ok ()) (hset : p.terminal.member.isWritable = true)
    (hpublic : p.terminal.member.accessibility = .isPublic) {set : U.Val T → U.Val V → U.Val T}
    (htyped : (p.typed? T V).bind Handles.set = some set) :
    p.simpleAssigner T V = .ok (p.terminal.member.name, set) := by
  have hsimple : p.isSimple = true := decide_eq_true hsingle
  simp only [simpleAssigner, hsimple, hcheck, hset, hpublic, htyped, Bool.not_true,
    Bool.false_eq_true, if_false, ne_eq, not_true_eq_false]

end Path

/-! ### Agreement -/

/-- **An accessor that writes by a typed setter,** and has a single name. -/
structure Accessor.WritesBy (a : Accessor U T V) (name : String)
    (set : U.Val T → U.Val V → U.Val T) : Prop where
  strategy : a.strategy = .direct
  names : a.names = [name]
  set_eq : ∀ x v, a.set x v = (.ok (), set x v)

section

variable {assigner : Except AccessorError (String × (U.Val T → U.Val V → U.Val T))}
  {accessor : Except AccessorError (Accessor U T V)}

/-- **An assigner and an accessor that decide alike:** the accessor writes by what the assigner is,
or there is neither, for the same reason. -/
inductive Agree : Except AccessorError (String × (U.Val T → U.Val V → U.Val T)) →
    Except AccessorError (Accessor U T V) → Prop
  | writes {name : String} {set : U.Val T → U.Val V → U.Val T} {a : Accessor U T V}
      (h : a.WritesBy name set) : Agree (.ok (name, set)) (.ok a)
  | fails (e : AccessorError) : Agree (.error e) (.error e)

/-- **There is an assigner exactly if there is an accessor that writes directly,** and the accessor
writes by it. -/
structure SameDirect (assigner : Except AccessorError (String × (U.Val T → U.Val V → U.Val T)))
    (accessor : Except AccessorError (Accessor U T V)) : Prop where
  exists_iff : (∃ s, assigner = .ok s) ↔ ∃ a, accessor = .ok a ∧ a.strategy = .direct
  writesBy {name : String} {set : U.Val T → U.Val V → U.Val T} {a : Accessor U T V} :
    assigner = .ok (name, set) → accessor = .ok a → a.WritesBy name set

/-- What decides alike succeeds together, by direct writing. -/
theorem Agree.sameDirect (h : Agree assigner accessor) : SameDirect assigner accessor := by
  cases h with
  | writes h =>
      refine ⟨⟨fun _ => ⟨_, rfl, h.strategy⟩, fun _ => ⟨_, rfl⟩⟩, fun hs ha => ?_⟩
      cases hs
      cases ha
      exact h
  | fails e =>
      refine ⟨⟨?_, ?_⟩, fun hs => (by cases hs)⟩
      · rintro ⟨_, hs⟩
        cases hs
      · rintro ⟨_, ha, -⟩
        cases ha

/-- What decides alike fails together, with the same error. -/
theorem Agree.error_iff (h : Agree assigner accessor) (e : AccessorError) :
    assigner = .error e ↔ accessor = .error e := by
  cases h with
  | writes _ => simp only [reduceCtorEq]
  | fails f => simp only [Except.error.injEq]

end

/-- A public member of the root that has a setter has a typed one. -/
theorem Registry.Resolves.exists_typed_set {names : List String}
    (h : r.Resolves p.root names p.members) (hsingle : p.members.length = 1)
    (hcheck : p.checkTypes T V = .ok ()) (hset : p.terminal.member.isWritable = true) :
    ∃ set, (p.typed? T V).bind Handles.set = some set := by
  obtain ⟨hroot, hvalue⟩ := Path.types_of_checkTypes hcheck
  obtain ⟨k, hhandles, hk⟩ := h.exists_typed? hsingle hroot hvalue
  rw [Member.isWritable, hhandles, ErasedHandles.hasSet] at hset
  obtain ⟨set, hset⟩ := Option.isSome_iff_exists.1 hset
  exact ⟨set, by rw [hk, Option.bind_some, hset]⟩

/-- The only member of a path is its last one. -/
theorem Path.names_of_single (hsingle : p.members.length = 1) :
    p.names = [p.terminal.member.name] := by
  obtain ⟨d, hd⟩ := List.length_eq_one_iff.1 hsingle
  have hmembers : p.members = [] ++ [d] := hd
  obtain ⟨-, rfl⟩ := parents_terminal_of_members hmembers
  rw [names, hd, List.map_singleton]

/-- **On a path of one member** an assigner and the accessor of the default policy decide alike. -/
theorem Path.agree_of_single {names : List String} (h : r.Resolves p.root names p.members)
    (hsingle : p.members.length = 1) :
    Agree (p.simpleAssigner T V) ((⟨false⟩ : Compiler).compile T V p).value := by
  cases hcheck : p.checkTypes T V with
  | error e =>
      rw [simpleAssigner_of_types hsingle hcheck, Compiler.value_compile_of_error hcheck]
      exact .fails _
  | ok _ =>
      rw [Compiler.value_compile hcheck]
      cases hset : p.terminal.member.isWritable with
      | false =>
          rw [simpleAssigner_of_readOnly hsingle hcheck hset, Compiler.setter_of_readOnly hset]
          exact .fails _
      | true =>
          by_cases hpublic : p.terminal.member.accessibility = .isPublic
          · obtain ⟨set, htyped⟩ := h.exists_typed_set hsingle hcheck hset
            rw [simpleAssigner_of_typed hsingle hcheck hset hpublic htyped,
              Compiler.setter_of_typed hset hpublic htyped]
            exact .writes ⟨rfl, names_of_single hsingle, fun _ _ => rfl⟩
          · have hmay : ¬(⟨false⟩ : Compiler).MayWrite p.terminal.member := by
              rintro (hp | hallow)
              · exact hpublic hp
              · cases hallow
            rw [simpleAssigner_of_nonPublic hsingle hcheck hset hpublic,
              Compiler.setter_of_not_mayWrite hset hmay]
            exact .fails _

/-- **A longer path is never written directly.** -/
theorem Path.strategy_ne_direct {c : Compiler} {a : Accessor U T V}
    (hlong : p.members.length ≠ 1) (ha : (c.compile T V p).value = .ok a) :
    a.strategy ≠ .direct := by
  obtain ⟨-, -, s, hs, rfl⟩ := Compiler.compile_cases ha
  obtain ⟨-, ⟨set, -, htyped, -⟩ | ⟨-, rfl, -⟩⟩ := Compiler.setter_cases hs
  · obtain ⟨k, hk, -⟩ := Option.bind_eq_some_iff.1 htyped
    have hparents := (typed?_cases hk).1
    have hlength := congrArg List.length p.parents_append_terminal
    rw [hparents] at hlength
    exact absurd hlength.symm hlong
  · exact fun h => by cases h

/-- **There is an assigner of a resolved path** exactly if the accessor of the default policy writes
directly. -/
theorem Path.sameDirect {names : List String} (h : r.Resolves p.root names p.members) :
    SameDirect (p.simpleAssigner T V) ((⟨false⟩ : Compiler).compile T V p).value := by
  by_cases hsingle : p.members.length = 1
  · exact (agree_of_single h hsingle).sameDirect
  · rw [simpleAssigner_of_long hsingle]
    refine ⟨⟨?_, ?_⟩, fun hs => (by cases hs)⟩
    · rintro ⟨_, hs⟩
      cases hs
    · rintro ⟨a, ha, hdirect⟩
      exact absurd hdirect (strategy_ne_direct hsingle ha)

/-! ### Specifications -/

namespace Registry

/-- Going on from a specification that is no path. -/
theorem withPath_of_error {α : Type} {root : TypeInfo U} {spec : PathSpec}
    {e : InvalidPath} {log : List LogRecord} (h : r.parse root spec = some ⟨.error e, log⟩)
    (next : Path U → Logged (Except AccessorError α)) :
    r.withPath root spec next = some ⟨.error (.invalidPath e), log⟩ := by
  have hlog : log ++ [] = log := List.append_nil log
  rw [withPath, h, Option.map_some]
  simp only [bind, pure, hlog]

/-- Going on from the path of a specification. -/
theorem withPath_of_ok {α : Type} {root : TypeInfo U} {spec : PathSpec}
    {log : List LogRecord} (h : r.parse root spec = some ⟨.ok p, log⟩)
    (next : Path U → Logged (Except AccessorError α)) :
    r.withPath root spec next = some ⟨(next p).value, log ++ (next p).log⟩ := by
  rw [withPath, h]
  rfl

/-- Going on fails, with the log of the path, if what goes on fails and logs nothing. -/
theorem withPath_eq_error_iff {α : Type} {root : TypeInfo U} {spec : PathSpec}
    {log : List LogRecord} (h : r.parse root spec = some ⟨.ok p, log⟩)
    {next : Path U → Logged (Except AccessorError α)} {e : AccessorError}
    (hlog : (next p).value = .error e → (next p).log = []) :
    r.withPath root spec next = some ⟨.error e, log⟩ ↔ (next p).value = .error e := by
  rw [withPath_of_ok h, Option.some.injEq, Logged.mk.injEq]
  exact ⟨And.left, fun hvalue => ⟨hvalue, by rw [hlog hvalue, List.append_nil]⟩⟩

end Registry

/-- Nothing is logged of a compilation that fails. -/
theorem Compiler.log_compile_of_error {c : Compiler} {e : AccessorError}
    (h : (c.compile T V p).value = .error e) : (c.compile T V p).log = [] := by
  cases hcheck : p.checkTypes T V with
  | error f => rw [compile, hcheck]; rfl
  | ok _ =>
      rw [value_compile hcheck] at h
      cases hs : c.setter p T V with
      | error f => rw [compile, hcheck, hs]; rfl
      | ok s => rw [hs] at h; cases h

/-- There is an assigner of a specification exactly if the accessor of the default policy writes
directly. -/
theorem Registry.rel_simpleAssigner (r : Registry U) (T V : U.Ty) (spec : PathSpec) :
    Option.Rel (fun assigner accessor => SameDirect assigner.value accessor.value)
      (r.simpleAssigner T V spec) (Compiler.compileSpec ⟨false⟩ r T V spec) := by
  rw [simpleAssigner, Compiler.compileSpec]
  cases hparse : r.parse (r.info T) spec with
  | none =>
      rw [withPath, withPath, hparse]
      exact .none
  | some parsed =>
      obtain ⟨value, log⟩ := parsed
      cases value with
      | error e =>
          rw [withPath_of_error hparse, withPath_of_error hparse]
          exact .some (Agree.fails _).sameDirect
      | ok p =>
          obtain ⟨names, -, hroot, hresolves⟩ := resolves_of_parse hparse
          rw [withPath_of_ok hparse, withPath_of_ok hparse]
          exact .some (Path.sameDirect (hroot ▸ hresolves))

/-- **A simple assigner agrees with the accessor of the default policy,** in every registry, for
every specification. There is an assigner exactly if there is an accessor that writes directly; the
accessor then has the name of the assigner as its only one, and writes by its function. A
specification that is no path is refused alike, and so is a path of one member. A longer path is
refused as such, with its full name and whatever its types and its members are. -/
theorem Registry.simpleAssigner_agrees (r : Registry U) (T V : U.Ty) (spec : PathSpec) :
    Option.Rel (fun assigner accessor => SameDirect assigner.value accessor.value)
        (r.simpleAssigner T V spec) (Compiler.compileSpec ⟨false⟩ r T V spec) ∧
      (∀ e log, r.parse (r.info T) spec = some ⟨.error e, log⟩ →
        r.simpleAssigner T V spec = some ⟨.error (.invalidPath e), log⟩ ∧
          Compiler.compileSpec ⟨false⟩ r T V spec = some ⟨.error (.invalidPath e), log⟩) ∧
      ∀ p log, r.parse (r.info T) spec = some ⟨.ok p, log⟩ →
        (p.members.length = 1 → ∀ e, r.simpleAssigner T V spec = some ⟨.error e, log⟩ ↔
          Compiler.compileSpec ⟨false⟩ r T V spec = some ⟨.error e, log⟩) ∧
        (p.members.length ≠ 1 → r.simpleAssigner T V spec =
          some ⟨.error (.invalidPath (.notSimple p.fullName)), log⟩) := by
  refine ⟨rel_simpleAssigner r T V spec,
    fun e log h => ⟨withPath_of_error h _, withPath_of_error h _⟩, fun p log h => ⟨?_, ?_⟩⟩
  · intro hsingle e
    obtain ⟨names, -, hroot, hresolves⟩ := resolves_of_parse h
    have hagree := Path.agree_of_single (T := T) (V := V) (hroot ▸ hresolves) hsingle
    rw [simpleAssigner, Compiler.compileSpec, withPath_eq_error_iff h fun _ => rfl,
      withPath_eq_error_iff h Compiler.log_compile_of_error]
    exact hagree.error_iff e
  · intro hlong
    rw [simpleAssigner, withPath_eq_error_iff h fun _ => rfl]
    exact Path.simpleAssigner_of_long hlong

/-- Among the guarded objects, the value that is shown has an assigner, by which its accessor
writes. The secret has neither, for the same reason. -/
theorem Declarations.guarded_assigners :
    (∃ s a log, (guarded.registry []).simpleAssigner (Ty.declared 0) (Ty.prim .i32)
          (.text "|x| x.shown") = some s ∧
        Compiler.compileSpec ⟨false⟩ (guarded.registry []) (Ty.declared 0) (Ty.prim .i32)
          (.text "|x| x.shown") = some ⟨.ok a, log⟩ ∧
        a.strategy = .direct ∧ SameDirect s.value (.ok a)) ∧
      ∃ p log, (guarded.registry []).parse ((guarded.registry []).info (Ty.declared 0))
          (.text "|x| x.secret") = some ⟨.ok p, log⟩ ∧ p.members.length = 1 ∧
        ∀ e, (guarded.registry []).simpleAssigner (Ty.declared 0) (Ty.prim .i32)
            (.text "|x| x.secret") = some ⟨.error e, log⟩ ↔
          Compiler.compileSpec ⟨false⟩ (guarded.registry []) (Ty.declared 0) (Ty.prim .i32)
            (.text "|x| x.secret") = some ⟨.error e, log⟩ := by
  obtain ⟨hshown, -, -⟩ := Registry.simpleAssigner_agrees (guarded.registry [])
    (Ty.declared 0) (Ty.prim .i32) (.text "|x| x.shown")
  obtain ⟨-, -, hsecret⟩ := Registry.simpleAssigner_agrees (guarded.registry [])
    (Ty.declared 0) (Ty.prim .i32) (.text "|x| x.secret")
  constructor
  · have htest : (Compiler.compileSpec (U := guarded.universe) ⟨false⟩ (guarded.registry [])
        (Ty.declared 0) (Ty.prim .i32) (.text "|x| x.shown")).any (fun found =>
          found.value.toOption.any fun a => decide (a.strategy = .direct)) = true := by
      decide +kernel
    obtain ⟨a, log, ha, hdirect⟩ := Logged.exists_of_any htest
    rw [ha] at hshown
    generalize hs : (guarded.registry []).simpleAssigner (Ty.declared 0) (Ty.prim .i32)
      (.text "|x| x.shown") = assigner at hshown
    cases hshown with
    | some h => exact ⟨_, a, log, rfl, ha, of_decide_eq_true hdirect, h⟩
  · have htest : ((guarded.registry []).parse ((guarded.registry []).info (Ty.declared 0))
        (.text "|x| x.secret")).any (fun found => found.value.toOption.any fun p =>
          decide (p.members.length = 1)) = true := by
      decide +kernel
    obtain ⟨p, log, hparse, hlength⟩ := Logged.exists_of_any htest
    have hsingle : p.members.length = 1 := of_decide_eq_true hlength
    exact ⟨p, log, hparse, hsingle, (hsecret p log hparse).1 hsingle⟩

end MemberAccess
