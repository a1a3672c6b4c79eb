import MemberAccess.Accessor.Compile
import MemberAccess.Proofs.Path.Resolution

/-!
# What compilation decides

A compilation that succeeds has compared the types of the path with those asked for and has picked a
getter and a setter. The lemmas here say what is decided in which case, and read off a success that
it was decided so, guards included. No later proof opens the compiler.

## Main definitions

* `Compiler.MayWrite`: what the accessibility of a member means to the compiler.
* `Path.CompilesTo`: the accessors of a path.

## Main results

* `Path.types_of_checkTypes`: the root and the value of the path have the types asked for.
* `Path.compoundSetter_eq_error_iff`, `Path.compoundSetter_of_traversable`: whether the owner of the
  last member can be borrowed.
* `Compiler.setter_of_readOnly`, `Compiler.setter_of_not_mayWrite`, `Compiler.setter_of_typed`,
  `Compiler.setter_of_not_typed`: the setter of a path, case by case.
* `Compiler.setter_cases`: the two setters that a path can get, and when it gets them.
* `Compiler.compile_cases`, `Compiler.compileWithSetter_cases`: the parts of an accessor.
* `Path.CompilesTo.getter_eq`: the getter of a path does not depend on its setter.
-/

namespace MemberAccess

variable {U : Universe} {T V : U.Ty} {p : Path U}

/-- The check of the types passes only on a path from the root type to the value type. -/
theorem Path.types_of_checkTypes (h : p.checkTypes T V = .ok ()) : p.root.id = T ∧ p.value = V := by
  rw [checkTypes] at h
  by_cases hroot : p.root.id = T
  · by_cases hvalue : p.value = V
    · exact ⟨hroot, hvalue⟩
    · simp only [hroot, hvalue, ne_eq, not_true_eq_false, not_false_eq_true, if_false, if_true,
        reduceCtorEq] at h
  · simp only [hroot, ne_eq, not_false_eq_true, if_true, reduceCtorEq] at h

/-- The check of the types passes on a path from the root type to the value type. -/
theorem Path.checkTypes_eq_ok (hroot : p.root.id = T) (hvalue : p.value = V) :
    p.checkTypes T V = .ok () := by
  rw [checkTypes, if_neg (not_not_intro hroot), if_neg (not_not_intro hvalue)]

/-- A path that belongs to another root type is refused. -/
theorem Path.checkTypes_of_root (hroot : p.root.id ≠ T) :
    p.checkTypes T V = .error (.rootTypeMismatch (U.name T) p.root.name) := by
  rw [checkTypes, if_pos hroot]

/-- A path that leads to another value type is refused, if its root type is right. -/
theorem Path.checkTypes_of_value (hroot : p.root.id = T) (hvalue : p.value ≠ V) :
    p.checkTypes T V = .error (.valueTypeMismatch p.terminal.member.name (U.name V)
      p.terminal.member.valueName) := by
  rw [checkTypes, if_neg (not_not_intro hroot), if_pos hvalue]

/-- Typed handles are those of the only member of a path. -/
theorem Path.typed?_cases {T V : U.Ty} {k : Handles U T V} (h : p.typed? T V = some k) :
    p.parents = [] ∧ p.terminal.member.handles.typed? T V = some k := by
  rw [typed?] at h
  cases hsimple : p.isSimple with
  | false => simp only [hsimple, Bool.false_eq_true, if_false, reduceCtorEq] at h
  | true =>
      rw [hsimple, if_pos rfl] at h
      have hlength : p.members.length = 1 := of_decide_eq_true hsimple
      refine ⟨List.eq_nil_of_length_eq_zero ?_, h⟩
      rw [parents, List.length_dropLast, hlength]

/-- The setter through the borrowed owner exists if all members before the last can be borrowed. -/
theorem Path.compoundSetter_cases {s : Setter U T V} (h : p.compoundSetter T V = .ok s) :
    s = .compound (.ofDescriptors p.parents) p.assign ∧
      ∀ d ∈ p.parents, d.member.isTraversable = true := by
  rw [compoundSetter] at h
  cases hfind : p.parents.find? fun d => !d.member.isTraversable with
  | some d => simp only [hfind, reduceCtorEq] at h
  | none =>
      simp only [hfind, Except.ok.injEq] at h
      refine ⟨h.symm, fun d hd => ?_⟩
      have hnot := List.find?_eq_none.1 hfind d hd
      simpa using hnot

/-- The setter through the borrowed owner is missing because of the first member that can not be
borrowed. -/
theorem Path.compoundSetter_eq_error_iff {e : AccessorError} :
    p.compoundSetter T V = .error e ↔ ∃ front d back, p.parents = front ++ d :: back ∧
      (∀ f ∈ front, f.member.isTraversable = true) ∧ d.member.isTraversable = false ∧
        e = .inaccessibleMember d.member.name .notMutablyTraversable := by
  rw [compoundSetter]
  constructor
  · intro h
    cases hfind : p.parents.find? fun d => !d.member.isTraversable with
    | none => simp only [hfind, reduceCtorEq] at h
    | some d =>
        simp only [hfind, Except.error.injEq] at h
        obtain ⟨hd, front, back, hparents, hfront⟩ := List.find?_eq_some_iff_append.1 hfind
        refine ⟨front, d, back, hparents, fun f hf => ?_, ?_, h.symm⟩
        · simpa using hfront f hf
        · simpa using hd
  · rintro ⟨front, d, back, hparents, hfront, hd, rfl⟩
    have hfind : p.parents.find? (fun d => !d.member.isTraversable) = some d :=
      List.find?_eq_some_iff_append.2
        ⟨by simp only [hd, Bool.not_false], front, back, hparents, fun f hf => by
          simp only [hfront f hf, Bool.not_true, Bool.not_false]⟩
    simp only [hfind, Member.refuse]

/-- The setter through the borrowed owner, where all members before the last can be borrowed. -/
theorem Path.compoundSetter_of_traversable (h : ∀ d ∈ p.parents, d.member.isTraversable = true) :
    p.compoundSetter T V = .ok (.compound (.ofDescriptors p.parents) p.assign) := by
  have hfind : p.parents.find? (fun d => !d.member.isTraversable) = none :=
    List.find?_eq_none.2 fun d hd => by simp only [h d hd, Bool.not_true, Bool.false_eq_true,
      not_false_eq_true]
  simp only [compoundSetter, hfind]

/-- A path of more than one member has no typed handles. -/
theorem Path.typed?_of_parents (h : p.parents ≠ []) : p.typed? T V = none := by
  cases htyped : p.typed? T V with
  | none => rfl
  | some k => exact absurd (Path.typed?_cases htyped).1 h

/-- A computation that was tested to give a value with a property gives one. -/
theorem exists_eq_ok_of_any {ε α : Type} {outcome : Except ε α} {q : α → Bool}
    (h : outcome.toOption.any q = true) : ∃ x, outcome = .ok x ∧ q x = true := by
  cases outcome with
  | error e => cases h
  | ok x => exact ⟨x, rfl, h⟩

/-- A logged computation that was tested to give a value with a property gives one. -/
theorem Logged.exists_of_any {ε α : Type} {o : Option (Logged (Except ε α))} {q : α → Bool}
    (h : o.any (fun found => found.value.toOption.any q) = true) :
    ∃ x log, o = some ⟨.ok x, log⟩ ∧ q x = true := by
  obtain ⟨⟨value, log⟩, rfl, hvalue⟩ := (Option.any_eq_true _ _).1 h
  obtain ⟨x, rfl, hx⟩ := exists_eq_ok_of_any hvalue
  exact ⟨x, log, rfl, hx⟩

/-- A resolution that was tested to give a path with a property gives one. -/
theorem Registry.exists_path_of_any {o : Option (Except InvalidPath (Path U))}
    {test : Path U → Bool} (h : o.any (fun found => found.toOption.any test) = true) :
    ∃ p, o = some (.ok p) ∧ test p = true := by
  obtain ⟨found, rfl, hfound⟩ := (Option.any_eq_true _ _).1 h
  obtain ⟨p, rfl, hp⟩ := exists_eq_ok_of_any hfound
  exact ⟨p, rfl, hp⟩

namespace Compiler

variable {c : Compiler}

/-- A member may be written if it is public, or if the policy allows others as well. -/
def MayWrite (c : Compiler) (m : Member U) : Prop :=
  m.accessibility = .isPublic ∨ c.allowNonPublicWrite = true

/-- A member without a setter is refused as read only, whatever the policy. -/
theorem setter_of_readOnly (hset : p.terminal.member.isWritable = false) :
    c.setter p T V = .error (.inaccessibleMember p.terminal.member.name .readOnly) := by
  simp only [setter, hset, Bool.not_false, if_true, Member.refuse]

/-- A member that may not be written under the policy is refused as not public. -/
theorem setter_of_not_mayWrite (hset : p.terminal.member.isWritable = true)
    (hmay : ¬c.MayWrite p.terminal.member) :
    c.setter p T V = .error (.inaccessibleMember p.terminal.member.name .nonPublic) := by
  obtain ⟨hpublic, hallow⟩ := not_or.1 hmay
  cases haccess : p.terminal.member.accessibility with
  | isPublic => exact absurd haccess hpublic
  | nonPublic =>
      simp only [setter, hset, haccess, Bool.not_eq_true _ ▸ hallow, Bool.not_true,
        Bool.false_eq_true, if_false, Member.refuse]

/-- A public setter of the right types is used directly. -/
theorem setter_of_typed (hset : p.terminal.member.isWritable = true)
    (hpublic : p.terminal.member.accessibility = .isPublic) {set : U.Val T → U.Val V → U.Val T}
    (htyped : (p.typed? T V).bind Handles.set = some set) :
    c.setter p T V = .ok (.direct set) := by
  simp only [setter, hset, hpublic, htyped, Bool.not_true, Bool.false_eq_true, if_false]

/-- Without a direct setter, the member is set through its owner. -/
theorem setter_of_not_typed (hset : p.terminal.member.isWritable = true)
    (hmay : c.MayWrite p.terminal.member)
    (htyped : p.terminal.member.accessibility = .isPublic →
      (p.typed? T V).bind Handles.set = none) :
    c.setter p T V = p.compoundSetter T V := by
  cases haccess : p.terminal.member.accessibility with
  | isPublic =>
      simp only [setter, hset, haccess, htyped haccess, Bool.not_true, Bool.false_eq_true, if_false]
  | nonPublic =>
      have hallow : c.allowNonPublicWrite = true := hmay.resolve_left (by simp [haccess])
      simp only [setter, hset, haccess, hallow, Bool.not_true, Bool.false_eq_true, if_false,
        if_true]

/-- Public members are written in the same way under every policy. -/
theorem setter_of_public (hpublic : p.terminal.member.accessibility = .isPublic) (c' : Compiler) :
    c'.setter p T V = c.setter p T V := by
  simp only [setter, hpublic]

/-- **The setters of a path.** A public member of the root with typed handles is written by its
typed setter. Any other member that has a setter, and may be written, is assigned in its borrowed
owner. -/
theorem setter_cases {s : Setter U T V} (h : c.setter p T V = .ok s) :
    p.terminal.member.isWritable = true ∧
      ((∃ set, p.terminal.member.accessibility = .isPublic ∧
          (p.typed? T V).bind Handles.set = some set ∧ s = .direct set) ∨
        ((p.terminal.member.accessibility = .nonPublic ∧ c.allowNonPublicWrite = true ∨
            p.terminal.member.accessibility = .isPublic ∧
              (p.typed? T V).bind Handles.set = none) ∧
          s = .compound (.ofDescriptors p.parents) p.assign ∧
          ∀ d ∈ p.parents, d.member.isTraversable = true)) := by
  cases hset : p.terminal.member.isWritable with
  | false => cases (setter_of_readOnly hset).symm.trans h
  | true =>
      refine ⟨rfl, ?_⟩
      cases haccess : p.terminal.member.accessibility with
      | nonPublic =>
          have hnot : p.terminal.member.accessibility ≠ .isPublic := by simp [haccess]
          by_cases hmay : c.MayWrite p.terminal.member
          · have hcompound := (setter_of_not_typed hset hmay fun hp => absurd hp hnot).symm.trans h
            exact .inr ⟨.inl ⟨rfl, hmay.resolve_left hnot⟩, Path.compoundSetter_cases hcompound⟩
          · cases (setter_of_not_mayWrite hset hmay).symm.trans h
      | isPublic =>
          cases htyped : (p.typed? T V).bind Handles.set with
          | some set =>
              have hdirect := (setter_of_typed hset haccess htyped).symm.trans h
              exact .inl ⟨set, rfl, rfl, (Except.ok.inj hdirect).symm⟩
          | none =>
              have hcompound :=
                (setter_of_not_typed hset (.inl haccess) fun _ => htyped).symm.trans h
              exact .inr ⟨.inr ⟨rfl, rfl⟩, Path.compoundSetter_cases hcompound⟩

/-- A path is compiled to what its setter makes of it, if its types are right. -/
theorem value_compile (hcheck : p.checkTypes T V = .ok ()) :
    (c.compile T V p).value = (c.setter p T V).map fun s => ⟨p.getter T V, s, p.names⟩ := by
  rw [compile, hcheck]
  cases hsetter : c.setter p T V with
  | error e => rfl
  | ok s => rfl

/-- A path whose types are wrong is not compiled. -/
theorem value_compile_of_error {e : InvalidPath} (hcheck : p.checkTypes T V = .error e) :
    (c.compile T V p).value = .error (.invalidPath e) := by
  rw [compile, hcheck]
  rfl

/-- **The parts of a compiled accessor.** -/
theorem compile_cases {a : Accessor U T V} (h : (c.compile T V p).value = .ok a) :
    p.root.id = T ∧ p.value = V ∧
      ∃ s, c.setter p T V = .ok s ∧ a = ⟨p.getter T V, s, p.names⟩ := by
  cases hcheck : p.checkTypes T V with
  | error e => cases (value_compile_of_error hcheck).symm.trans h
  | ok _ =>
      obtain ⟨hroot, hvalue⟩ := Path.types_of_checkTypes hcheck
      rw [value_compile hcheck] at h
      cases hsetter : c.setter p T V with
      | error e => rw [hsetter] at h; cases h
      | ok s =>
          rw [hsetter] at h
          exact ⟨hroot, hvalue, s, rfl, (Except.ok.inj h).symm⟩

/-- **The parts of an accessor with a setter of the caller's.** -/
theorem compileWithSetter_cases {set : U.Val T → U.Val V → U.Val T} {a : Accessor U T V}
    (h : (compileWithSetter T V set p).value = .ok a) :
    p.root.id = T ∧ p.value = V ∧ a = ⟨p.getter T V, .explicit set, p.names⟩ := by
  rw [compileWithSetter] at h
  cases hcheck : p.checkTypes T V with
  | error e => simp only [hcheck, pure, reduceCtorEq] at h
  | ok _ =>
      obtain ⟨hroot, hvalue⟩ := Path.types_of_checkTypes hcheck
      simp only [hcheck] at h
      exact ⟨hroot, hvalue, (Except.ok.inj h).symm⟩

/-- A path whose types are right is compiled with every setter of the caller's. -/
theorem value_compileWithSetter (hroot : p.root.id = T) (hvalue : p.value = V)
    (set : U.Val T → U.Val V → U.Val T) :
    (compileWithSetter T V set p).value = .ok ⟨p.getter T V, .explicit set, p.names⟩ := by
  rw [compileWithSetter, Path.checkTypes_eq_ok hroot hvalue]
  rfl

end Compiler

/-! ### The accessors of a path -/

/-- **An accessor of a path:** it was compiled for the path under some policy, or with some setter
of the caller's. -/
inductive Path.CompilesTo (p : Path U) (a : Accessor U T V) : Prop
  | policy (c : Compiler) (h : (c.compile T V p).value = .ok a)
  | explicit (set : U.Val T → U.Val V → U.Val T)
      (h : (Compiler.compileWithSetter T V set p).value = .ok a)

/-- A path has an accessor for its own root type and value type. -/
theorem Path.exists_compilesTo (hroot : p.root.id = T) (hvalue : p.value = V) :
    ∃ a : Accessor U T V, p.CompilesTo a :=
  ⟨_, .explicit _ (Compiler.value_compileWithSetter hroot hvalue fun x _ => x)⟩

/-- All accessors of a path read by the same getter. -/
theorem Path.CompilesTo.getter_eq {a : Accessor U T V} (h : p.CompilesTo a) :
    p.root.id = T ∧ p.value = V ∧ a.getter = p.getter T V := by
  cases h with
  | policy c h =>
      obtain ⟨hroot, hvalue, s, -, rfl⟩ := Compiler.compile_cases h
      exact ⟨hroot, hvalue, rfl⟩
  | explicit set h =>
      obtain ⟨hroot, hvalue, rfl⟩ := Compiler.compileWithSetter_cases h
      exact ⟨hroot, hvalue, rfl⟩

end MemberAccess
