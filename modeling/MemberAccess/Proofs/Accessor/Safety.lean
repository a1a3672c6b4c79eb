import MemberAccess.Proofs.Accessor.Compilation
import MemberAccess.Proofs.Accessor.Walk
import MemberAccess.Proofs.Objects.Registry

/-!
# Compiled accessors are safe

The walks of an accessor keep the failures of handles that are given a foreign owner or value. On an
accessor that was compiled from a resolved path these failures do not occur: the resolution has made
the members lead from the root to the owner of the last one, and the compiler has compared both ends
with the types asked for. What remains is the missing value at an empty wrapper.

## Main results

* `Path.Typed.getter_safe`: the getter of a typed path.
* `Path.assign_safe`: the assignment of the last member in its borrowed owner.
* `Registry.compiled_accessor_safe`: a compiled accessor gives a value or misses one, whatever the
  root.
-/

namespace MemberAccess

variable {U : Universe} {r : Registry U} {p : Path U}

/-! ### Reading -/

/-- Reading all members of a typed path from its root gives a value of the type of the path, or
misses a value. -/
theorem Path.Typed.readSteps_members (hr : r.WellTyped) (hp : p.Typed r) (root : Dyn U)
    (hroot : root.ty = p.root.id) :
    (∃ v : U.Val p.value, Chain.readSteps (Chain.stepsFrom 0 p.members) root = .ok ⟨p.value, v⟩) ∨
      ∃ f, Chain.readSteps (Chain.stepsFrom 0 p.members) root = .error f ∧ f.IsMissing := by
  rw [← p.parents_append_terminal, Chain.stepsFrom_append, Chain.readSteps_append]
  rcases hp.leads.readSteps hr hroot 0 with ⟨owner, howner, hty⟩ | ⟨f, hfail, hf⟩
  · obtain ⟨v, hv⟩ := ErasedHandles.exists_read (hty.symm : p.terminal.member.handles.owner = _)
    refine .inl ⟨v, ?_⟩
    rw [howner]
    simp only [Except.bind, Chain.stepsFrom, Chain.readSteps, Descriptor.step, hv,
      hp.unwraps_terminal, Wrapper.openAll]
    rfl
  · exact .inr ⟨f, by rw [hfail]; rfl, hf⟩

/-- **The getter of a typed path** gives a value, or misses one. -/
theorem Path.Typed.getter_safe (hr : r.WellTyped) (hp : p.Typed r)
    (root : U.Val p.root.id) :
    (∃ v, (p.getter p.root.id p.value).get root = .ok v) ∨
      ∃ f, (p.getter p.root.id p.value).get root = .error f ∧ f.IsMissing := by
  rw [Path.getter]
  cases p.typed? p.root.id p.value with
  | some h => exact .inl ⟨h.get root, rfl⟩
  | none =>
      simp only [Getter.get, Chain.read, Chain.steps_ofDescriptors]
      rcases hp.readSteps_members hr ⟨p.root.id, root⟩ rfl with ⟨v, hv⟩ | ⟨f, hfail, hf⟩
      · simp only [hv, Dyn.as?_self]
        exact .inl ⟨v, rfl⟩
      · simp only [hfail]
        exact .inr ⟨f, rfl, hf⟩

/-! ### Writing -/

/-- Assigning a member through its own borrow replaces the borrowed component. -/
theorem Assign.perform_slot {m : Member U} {borrow : U.Val m.owner → _}
    (hb : m.handles.handles.getMut = some borrow) (o : U.Val m.owner) (v : U.Val m.value) :
    (Assign.slot m).perform ⟨m.owner, o⟩ v = (.ok (), (borrow o).2 v) := by
  have hread : m.handles.readMut ⟨m.owner, o⟩ = some ⟨m.value, (borrow o).1, (borrow o).2⟩ :=
    ErasedHandles.readMut_self hb o
  simp only [perform, hread, Slot.store?, Dyn.as?_self]
  rfl

/-- Assigning a member by its setter applies the setter. -/
theorem Assign.perform_setter {m : Member U} {set : U.Val m.owner → _}
    (hs : m.handles.handles.set = some set) (o : U.Val m.owner) (v : U.Val m.value) :
    (Assign.setter m).perform ⟨m.owner, o⟩ v = (.ok (), set o v) := by
  have hassign : m.handles.assign ⟨m.owner, o⟩ ⟨m.value, some v⟩ = some (set o v) :=
    ErasedHandles.assign_self hs o v
  simp only [perform, hassign]
  rfl

/-- **The last member of a path can be assigned in its owners,** if it has a setter. -/
theorem Path.assign_safe (hset : p.terminal.member.isWritable = true)
    (o : U.Val p.terminal.member.owner) (v : U.Val p.value) :
    (p.assign.perform ⟨p.terminal.member.owner, o⟩ v).1 = .ok () := by
  rw [Path.assign]
  by_cases hslot : p.terminal.member.kind = .field ∧ p.terminal.member.isTraversable = true
  · obtain ⟨borrow, hborrow⟩ := Option.isSome_iff_exists.1 hslot.2
    rw [if_pos hslot]
    exact congrArg Prod.fst (Assign.perform_slot hborrow o v)
  · obtain ⟨set, hset⟩ := Option.isSome_iff_exists.1 hset
    rw [if_neg hslot]
    exact congrArg Prod.fst (Assign.perform_setter hset o v)

/-- **The setter of a typed path,** unless it is the caller's, succeeds or misses a value. -/
theorem Path.Typed.setter_safe (hr : r.WellTyped) (hp : p.Typed r) {c : Compiler}
    {s : Setter U p.root.id p.value} (hs : c.setter p p.root.id p.value = .ok s)
    (root : U.Val p.root.id) (v : U.Val p.value) :
    (s.set root v).1 = .ok () ∨ ∃ f, (s.set root v).1 = .error f ∧ f.IsMissing := by
  obtain ⟨hset, ⟨set, -, -, rfl⟩ | ⟨-, rfl, hmut⟩⟩ := Compiler.setter_cases hs
  · exact .inl rfl
  · simp only [Setter.set, Chain.readMut, Chain.steps_ofDescriptors]
    rcases hp.leads.readMutSteps hr hmut (d := ⟨p.root.id, root⟩) rfl 0 with
      ⟨owner, howner, hty⟩ | ⟨f, after, hfail, hf⟩
    · obtain ⟨t, content, fill⟩ := owner
      obtain rfl : t = p.terminal.member.owner := hty
      simp only [howner]
      exact .inl (Path.assign_safe hset content v)
    · simp only [hfail]
      exact .inr ⟨f, rfl, hf⟩

/-! ### Accessors -/

/-- **Type soundness of compiled accessors.** Let a specification be parsed in a well-typed registry
and its path be compiled, for any root and value type and under any policy, or with a setter of the
caller's. Then reading a root gives a value of the value type or misses a value on the way, and so
does writing, unless it is the caller's. No handle is ever given a foreign owner or value. -/
theorem Registry.compiled_accessor_safe (hr : r.WellTyped) {root : TypeInfo U} {spec : PathSpec}
    {log : List LogRecord} (hparse : r.parse root spec = some ⟨.ok p, log⟩) (T V : U.Ty) :
    (∀ (c : Compiler) (a : Accessor U T V), (c.compile T V p).value = .ok a → ∀ x : U.Val T,
      ((∃ v, a.get x = .ok v) ∨ ∃ m i, a.get x = .error (.missingIntermediate m i)) ∧
        ∀ v : U.Val V, (a.set x v).1 = .ok () ∨
          ∃ m i, (a.set x v).1 = .error (.missingIntermediate m i)) ∧
    ∀ (set : U.Val T → U.Val V → U.Val T) (a : Accessor U T V),
      (Compiler.compileWithSetter T V set p).value = .ok a → ∀ x : U.Val T,
        (∃ v, a.get x = .ok v) ∨ ∃ m i, a.get x = .error (.missingIntermediate m i) := by
  obtain ⟨names, -, rfl, hresolves⟩ := resolves_of_parse hparse
  have hp : p.Typed r := typed_of_resolves hr hresolves
  have hget : ∀ x, (∃ v, (p.getter p.root.id p.value).get x = .ok v) ∨
      ∃ m i, (p.getter p.root.id p.value).get x = .error (.missingIntermediate m i) := by
    intro x
    rcases hp.getter_safe hr x with hok | ⟨f, hfail, m, i, rfl⟩
    · exact .inl hok
    · exact .inr ⟨m, i, hfail⟩
  refine ⟨fun c a ha => ?_, fun set a ha => ?_⟩
  · obtain ⟨rfl, rfl, s, hs, rfl⟩ := Compiler.compile_cases ha
    refine fun x => ⟨hget x, fun v => ?_⟩
    rcases hp.setter_safe hr hs x v with hok | ⟨f, hfail, m, i, rfl⟩
    · exact .inl hok
    · exact .inr ⟨m, i, hfail⟩
  · obtain ⟨rfl, rfl, rfl⟩ := Compiler.compileWithSetter_cases ha
    exact hget

/-- In the objects that may be linked to a next one, the count of the next is a path that is parsed
and compiled; reading and writing it succeed, or find no next object. -/
theorem Declarations.linked_accessor_safe :
    (Declarations.linked.registry []).WellTyped ∧
      ∃ p log, (Declarations.linked.registry []).parse
          ((Declarations.linked.registry []).info (Ty.declared 0)) (.text "|x| x.next.count") =
            some ⟨.ok p, log⟩ ∧
        ∃ a, (Compiler.compile ⟨false⟩ (Ty.declared 0) (Ty.prim .i32) p).value = .ok a ∧ ∀ x,
          ((∃ v, a.get x = .ok v) ∨ ∃ m i, a.get x = .error (.missingIntermediate m i)) ∧
            ∀ v, (a.set x v).1 = .ok () ∨
              ∃ m i, (a.set x v).1 = .error (.missingIntermediate m i) := by
  have hr := Declarations.linked.wellTyped_registry []
  have htest : ((Declarations.linked.registry []).parse
      ((Declarations.linked.registry []).info (Ty.declared 0)) (.text "|x| x.next.count")).any
        (fun found => found.value.toOption.any fun p =>
          (Compiler.compile ⟨false⟩ (Ty.declared 0) (Ty.prim .i32) p).value.isOk) = true := by
    decide +kernel
  obtain ⟨p, log, hparse, hcompile⟩ := Logged.exists_of_any htest
  refine ⟨hr, p, log, hparse, ?_⟩
  cases ha : (Compiler.compile ⟨false⟩ (Ty.declared 0) (Ty.prim .i32) p).value with
  | error e =>
      rw [ha] at hcompile
      cases hcompile
  | ok a => exact ⟨a, rfl, (Registry.compiled_accessor_safe hr hparse _ _).1 _ a ha⟩

end MemberAccess
