import MemberAccess.Proofs.Accessor.Focus

/-!
# Accessors are lenses

What is written is read afterwards, writing what is read changes nothing, and of two writes the
second alone counts. These laws hold of the component of a member in its owner, and of the access to
the owner. A focused accessor inherits them from both: the access gives back the owner that was
filled in, in the same slot, and the component laws do the rest.

A setter of a member may keep books in the owner. So roots are compared as two writes by look-up
are, by `Registry.SameComponents`: they may differ in what no member of that one owner reads.

## Main results

* `Accessor.Focuses.get_set`, `Accessor.Focuses.set_get`, `Accessor.Focuses.set_set`: the laws of a
  focused accessor.
* `Registry.compiled_accessor_lens`: the laws of a compiled accessor.
-/

namespace MemberAccess

variable {U : Universe} {r : Registry U} {p : Path U}

/-! ### Focused accessors -/

namespace Accessor.Focuses

variable {T V O : U.Ty} {a : Accessor U T V} {w : Access U} {c : Component U O V}
  {store : U.Val O → U.Val V → U.Val O}

/-- After a write, the access arrives at the owner that was stored, in the same slot. -/
theorem borrow_set (h : a.Focuses r w c store) {x : U.Val T} {o : U.Val O}
    {fill : U.Val O → U.Val T} (hs : w.borrow ⟨T, x⟩ = .ok ⟨O, o, fill⟩) (v : U.Val V) :
    w.borrow ⟨T, (a.set x v).2⟩ = .ok ⟨O, store o v, fill⟩ := by
  rw [h.set_ok hs]
  exact h.lawful.refill hs (store o v)

/-- **What is written is read.** The component must be one that members show. -/
theorem get_set (h : a.Focuses r w c store)
    (hread : ∀ {x y}, r.SameMembers O x y → c.read x = c.read y) {x : U.Val T} {v : U.Val V}
    (hset : (a.set x v).1 = .ok ()) : a.get (a.set x v).2 = .ok v := by
  rcases h.outcome x with ⟨o, fill, hs⟩ | ⟨f, hf⟩
  · have hstored : c.read (store o v) = v := by
      rw [← hread (h.stores o v), c.read_replace]
    rw [h.get_ok (h.borrow_set hs v), hstored]
  · rw [h.set_error hf] at hset
    cases hset

/-- **Writing what is read** stores an owner whose members read the same. -/
theorem set_get (h : a.Focuses r w c store) {x : U.Val T} {v : U.Val V} (hget : a.get x = .ok v) :
    ∃ o fill, w.borrow ⟨T, x⟩ = .ok ⟨O, o, fill⟩ ∧ x = fill o ∧
      a.set x v = (.ok (), fill (store o v)) ∧ r.SameMembers O (store o v) o := by
  rcases h.outcome x with ⟨o, fill, hs⟩ | ⟨f, hf⟩
  · have hv : c.read o = v := Except.ok.inj ((h.get_ok hs).symm.trans hget)
    have hkeep : c.replace o v = o := by rw [← hv, c.replace_read]
    have hstored := h.stores o v
    rw [hkeep] at hstored
    exact ⟨o, fill, hs, (h.lawful.restore hs).symm, h.set_ok hs v, hstored.symm⟩
  · cases (h.get_error hf).symm.trans hget

/-- **Of two writes the second alone counts,** for the members of the owner. Neither has an effect
if the access fails. -/
theorem set_set (h : a.Focuses r w c store)
    (hreplace : ∀ {x y} v, r.SameMembers O x y → r.SameMembers O (c.replace x v) (c.replace y v))
    (x : U.Val T) (v v' : U.Val V) :
    (∃ o fill, w.borrow ⟨T, x⟩ = .ok ⟨O, o, fill⟩ ∧
        a.set (a.set x v).2 v' = (.ok (), fill (store (store o v) v')) ∧
        a.set x v' = (.ok (), fill (store o v')) ∧
        r.SameMembers O (store (store o v) v') (store o v')) ∨
      a.set (a.set x v).2 v' = a.set x v' := by
  rcases h.outcome x with ⟨o, fill, hs⟩ | ⟨f, hf⟩
  · refine .inl ⟨o, fill, hs, h.set_ok (h.borrow_set hs v) v', h.set_ok hs v', ?_⟩
    have htwice : r.SameMembers O (c.replace (store o v) v') (c.replace o v') := by
      rw [← c.replace_replace o v v']
      exact hreplace v' (h.stores o v).symm
    exact (h.stores _ v').symm.trans (htwice.trans (h.stores o v'))
  · exact .inr (by rw [h.set_error hf v])

end Accessor.Focuses

/-! ### The last member -/

/-- If setters keep their books apart, the component of a member with a setter is replaced without
regard to books. -/
theorem Registry.Addresses.replace_congr (hbooks : r.BooksApart) {m : Member U}
    (hm : r.Owns m.owner m) (hset : m.isWritable = true) {c : Component U m.owner m.value}
    (hc : r.Addresses m.handles.handles c) {x y : U.Val m.owner} (v : U.Val m.value)
    (h : r.SameMembers m.owner x y) : r.SameMembers m.owner (c.replace x v) (c.replace y v) := by
  obtain ⟨store, hstore⟩ := Option.isSome_iff_exists.1 hset
  have hx : r.SameMembers m.owner (c.replace x v) (store x v) := hc.set hstore x v
  have hy : r.SameMembers m.owner (c.replace y v) (store y v) := hc.set hstore y v
  exact hx.trans ((hbooks m hm store hstore x y v h).trans hy.symm)

/-- Filling the slot of the owner of the last member with values whose members read the same gives
roots with the same components. -/
theorem Path.sameComponents (hr : r.WellTyped) {T : U.Ty} (hroot : p.root = r.info T)
    {front : List String} {name : String} (h : r.Resolves p.root (front ++ [name]) p.members)
    {x : U.Val p.root.id} {s : Slot U (U.Val p.root.id)}
    (hs : p.ownerAccess.borrow ⟨p.root.id, x⟩ = .ok s) {y z : U.Val s.ty}
    (hsame : r.SameMembers s.ty y z) :
    r.SameComponents ⟨p.root.id, x⟩ front (s.fill y) (s.fill z) := by
  have hid : r.info p.root.id = p.root := by rw [hroot, hr.id_info]
  have hborrow := h.borrowOwner hr (d := ⟨p.root.id, x⟩) hid none
  have hdrop : p.members.dropLast = p.parents := rfl
  rw [List.dropLast_concat, hdrop, LastRead.next_none, ← p.ownerAccess_borrow, hs] at hborrow
  exact .owner hborrow hsame

/-! ### Compiled accessors -/

/-- **Compiled accessors obey the lens laws.** Let a specification be compiled in a registry of
lawful descriptions, whose setters keep their books apart, without a setter of the caller's. What
is written is read afterwards. What is read can be written, and leaves the root with the same
components. Of two writes the second alone counts: it succeeds or fails as without the first, and
leaves the root with the same components. -/
theorem Registry.compiled_accessor_lens (hr : r.LawfulInfos) (hbooks : r.BooksApart)
    {c : Compiler} {T V : U.Ty} {spec : PathSpec} {a : Accessor U T V} {log : List LogRecord}
    (h : c.compileSpec r T V spec = some ⟨.ok a, log⟩) :
    ∃ front name, spec.memberNames = .ok (front ++ [name]) ∧ ∀ (x : U.Val T) (v : U.Val V),
      ((a.set x v).1 = .ok () → a.get (a.set x v).2 = .ok v) ∧
        (a.get x = .ok v → (a.set x v).1 = .ok () ∧
          r.SameComponents ⟨T, x⟩ front (a.set x v).2 x) ∧
        ∀ v' : U.Val V, (a.set (a.set x v).2 v').1 = (a.set x v').1 ∧
          r.SameComponents ⟨T, x⟩ front (a.set (a.set x v).2 v').2 (a.set x v').2 := by
  obtain ⟨p, before, hparse, hcompile⟩ := Compiler.compileSpec_cases h
  obtain ⟨names, hnames, hroot, hresolves⟩ := resolves_of_parse hparse
  obtain ⟨rfl, rfl, s, hs, rfl⟩ := Compiler.compile_cases hcompile
  have hresolves : r.Resolves p.root names p.members := hroot ▸ hresolves
  obtain ⟨front, name, -, -, rfl, -⟩ := Resolves.terminal hr.toWellTyped (hroot ▸ hresolves)
  obtain ⟨component, hcomponent, store, hfocus⟩ := Path.exists_focuses hr hroot hresolves hs
  have howns := Path.owns_terminal hr.toWellTyped hroot hresolves
  have hset := (Compiler.traversable_of_setter hs).1
  refine ⟨front, name, hnames, fun x v => ⟨?_, fun hget => ?_, fun v' => ?_⟩⟩
  · exact hfocus.get_set (SameMembers.component howns hcomponent)
  · obtain ⟨o, fill, hborrow, hx, hwritten, hsame⟩ := hfocus.set_get hget
    have hroots : r.SameComponents ⟨p.root.id, x⟩ front (fill (store o v)) (fill o) :=
      Path.sameComponents hr.toWellTyped hroot hresolves hborrow hsame
    rw [← hx] at hroots
    rw [hwritten]
    exact ⟨rfl, hroots⟩
  · have hreplace : ∀ {y z : U.Val p.terminal.member.owner} (u : U.Val p.value),
        r.SameMembers p.terminal.member.owner y z →
          r.SameMembers p.terminal.member.owner (component.replace y u) (component.replace z u) :=
      fun u hsame => Addresses.replace_congr hbooks howns hset hcomponent u hsame
    rcases hfocus.set_set hreplace x v v' with ⟨o, fill, hborrow, htwice, honce, hsame⟩ | heq
    · rw [htwice, honce]
      exact ⟨rfl, Path.sameComponents hr.toWellTyped hroot hresolves hborrow hsame⟩
    · rw [heq]
      exact ⟨rfl, .refl _⟩

/-- In the objects that may be linked to a next one, the accessor of the count of the next obeys the
lens laws. -/
theorem Declarations.linked_accessor_lens :
    ((Declarations.linked.registry []).LawfulInfos ∧
        (Declarations.linked.registry []).BooksApart) ∧
      ∃ a log, Compiler.compileSpec ⟨false⟩ (Declarations.linked.registry []) (Ty.declared 0)
          (Ty.prim .i32) (.text "|x| x.next.count") = some ⟨.ok a, log⟩ ∧
        ∃ front name, PathSpec.memberNames (.text "|x| x.next.count") = .ok (front ++ [name]) ∧
          ∀ x v, ((a.set x v).1 = .ok () → a.get (a.set x v).2 = .ok v) ∧
            (a.get x = .ok v → (a.set x v).1 = .ok () ∧
              (Declarations.linked.registry []).SameComponents ⟨Ty.declared 0, x⟩ front
                (a.set x v).2 x) ∧
            ∀ v', (a.set (a.set x v).2 v').1 = (a.set x v').1 ∧
              (Declarations.linked.registry []).SameComponents ⟨Ty.declared 0, x⟩ front
                (a.set (a.set x v).2 v').2 (a.set x v').2 := by
  have hr := Declarations.linked.lawfulInfos_registry []
  have hbooks := Declarations.linked.booksApart_registry []
  have htest : (Compiler.compileSpec ⟨false⟩ (Declarations.linked.registry []) (Ty.declared 0)
      (Ty.prim .i32) (.text "|x| x.next.count")).any
        (fun found => found.value.toOption.any fun _ => true) = true := by
    decide +kernel
  obtain ⟨a, log, hcompile, -⟩ := Logged.exists_of_any htest
  exact ⟨⟨hr, hbooks⟩, a, log, hcompile, Registry.compiled_accessor_lens hr hbooks hcompile⟩

end MemberAccess
