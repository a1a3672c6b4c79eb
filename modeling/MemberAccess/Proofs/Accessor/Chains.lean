import MemberAccess.Proofs.Accessor.Write
import MemberAccess.Proofs.Path.Outcome

/-!
# Reading and borrowing a chain

A chain is read by one loop and borrowed by another, each with a loop over the wrappers inside. On
the members of a resolved path both loops take the same way: at every wrapper that one of them comes
to, the other comes to the same value, and both enter it or neither does. So a chain reads what it
borrows, it reads what was stored there, and both fail at the same place.

The place of a wrapper is the end of a shorter chain, which stops in front of it. Such a chain may
end in the middle of the wrappers after a member, where no path does.

## Main definitions

* `Chain.upTo`: the chain up to a member and some of the wrappers after it.

## Main results

* `Path.Typed.reaches_upTo`: a chain along a typed path is a lawful access, wherever it stops.
* `Registry.chain_reads_as_it_borrows`: the chain of the first members of a path reads as it
  borrows.
-/

namespace MemberAccess

variable {U : Universe} {r : Registry U} {p : Path U}

namespace Chain

/-- **The chain up to a place:** it reads the members `front` and then the member `d`, of whose
wrappers it opens the first, `ws`. -/
def upTo (front : List (Descriptor U)) (d : Descriptor U) (ws : List (Wrapper U)) : Chain U :=
  ⟨(ofDescriptors front).steps ++ [⟨d.member, front.length, ws⟩]⟩

/-- The chain of some members goes up to the last wrapper after the last of them. -/
theorem ofDescriptors_concat (front : List (Descriptor U)) (d : Descriptor U) :
    ofDescriptors (front ++ [d]) = upTo front d d.unwraps := by
  have hsteps : (ofDescriptors (front ++ [d])).steps = (upTo front d d.unwraps).steps := by
    rw [upTo, steps_ofDescriptors, steps_ofDescriptors, stepsFrom_append, Nat.zero_add]
    rfl
  exact congrArg Chain.mk hsteps

end Chain

/-! ### Where chains stop -/

/-- **A chain along a typed path is a lawful access, wherever it stops.** It stops at values of a
type that is the next wrapper of the path, if there is one. -/
theorem Path.Typed.reaches_upTo (hr : r.LawfulInfos) (hp : p.Typed r)
    (howns : ∀ d ∈ p.members, r.Owns d.member.owner d.member) {front more : List (Descriptor U)}
    {d : Descriptor U} (hmembers : p.members = front ++ d :: more)
    (hmut : ∀ e ∈ front ++ [d], e.member.isTraversable = true) {ws vs : List (Wrapper U)}
    (hws : d.unwraps = ws ++ vs) :
    ∃ u, (Access.walk (Chain.upTo front d ws).steps).Reaches p.root.id u ∧
      ∀ w more, vs = w :: more → (r.info u).wrapper? = some w := by
  obtain ⟨hmutFront, hmutLast⟩ := List.forall_mem_append.1 hmut
  rw [hmembers] at howns
  obtain ⟨hownsFront, howns⟩ := List.forall_mem_append.1 howns
  obtain ⟨hown, -⟩ := List.forall_mem_cons.1 howns
  obtain ⟨c, hc⟩ := hr.addresses hown
  -- Behind the last member no wrapper is crossed, behind any other the way to the next owner is.
  obtain ⟨u, henters, hnext⟩ : ∃ u, r.Enters d.member.value ws u ∧
      ∀ w more, vs = w :: more → (r.info u).wrapper? = some w := by
    rcases Path.member_cases hmembers with ⟨-, hterminal⟩ | ⟨more', hparents⟩
    · have hnone : ws ++ vs = [] := hws.symm.trans (hterminal ▸ hp.unwraps_terminal)
      obtain ⟨rfl, rfl⟩ := List.append_eq_nil_iff.1 hnone
      exact ⟨_, .nil, fun w more h => nomatch h⟩
    · have hleads := hp.leads
      rw [hparents] at hleads
      obtain ⟨_, -, hrest⟩ := hleads.append_inv
      obtain ⟨-, s, hcross, -⟩ := hrest.cons_inv
      obtain ⟨u, henters, hcross⟩ := (hws ▸ hcross).append_inv
      refine ⟨u, henters, fun w more hvs => ?_⟩
      subst hvs
      cases hcross with
      | enter hw _ => exact hw
  have hwrappers := henters.reaches_wrappers hr
    (Step.isMissing_missing ⟨d.member, front.length, ws⟩)
  have hstep := (Access.reaches_member hc (hmutLast d List.mem_cons_self)).comp
    (hwrappers.comp (Access.reaches_whole u))
  refine ⟨u, ?_, hnext⟩
  rw [Chain.upTo, Chain.steps_ofDescriptors]
  exact (hp.leads_front hmembers).reaches_walk_append hr hownsFront hmutFront 0 hstep

/-- The chain of the first members of a typed path is a lawful access. -/
theorem Path.Typed.exists_reaches (hr : r.LawfulInfos) (hp : p.Typed r)
    (howns : ∀ d ∈ p.members, r.Owns d.member.owner d.member) {ds : List (Descriptor U)}
    (hds : ds <+: p.members) (hmut : ∀ d ∈ ds, d.member.isTraversable = true) :
    ∃ u, (Access.walk (Chain.ofDescriptors ds).steps).Reaches p.root.id u := by
  rcases List.eq_nil_or_concat ds with rfl | ⟨front, d, rfl⟩
  · exact ⟨p.root.id, Access.reaches_whole _⟩
  · rw [List.concat_eq_append] at hds hmut ⊢
    obtain ⟨more, hmore⟩ := hds
    have hmembers : p.members = front ++ d :: more := by
      rw [← hmore, List.append_assoc, List.singleton_append]
    have hall : d.unwraps = d.unwraps ++ [] := (List.append_nil _).symm
    obtain ⟨u, hreaches, -⟩ := hp.reaches_upTo hr howns hmembers hmut hall
    exact ⟨u, Chain.ofDescriptors_concat front d ▸ hreaches⟩

/-! ### Chains of resolved paths -/

/-- **A chain reads as it borrows.** Let a path be resolved in a registry of lawful descriptions,
and take the chain of its first members, or of all of them, if they can be borrowed. On each root it
reads a value exactly if it borrows a slot that holds it, and fails exactly as it borrows, with a
missing value, which leaves the root as it was. A slot that is borrowed has changed nothing; after
something was stored in it, the chain reads what was stored and borrows the same slot. And at each
wrapper on the way, both come to the same value, which is opened for reading exactly if it is opened
for borrowing, with the same content. -/
theorem Registry.chain_reads_as_it_borrows (hr : r.LawfulInfos) {T : U.Ty} {names : List String}
    (hresolve : r.resolve (r.info T) names = some (.ok p)) {ds : List (Descriptor U)}
    (hds : ds <+: p.members) (hmut : ∀ d ∈ ds, d.member.isTraversable = true) (x : U.Val T) :
    (∀ v, (Chain.ofDescriptors ds).read ⟨T, x⟩ = .ok v ↔
        ∃ s, (Chain.ofDescriptors ds).readMut ⟨T, x⟩ = .ok s ∧ s.dyn = v) ∧
      (∀ f, (Chain.ofDescriptors ds).read ⟨T, x⟩ = .error f ↔
        (Chain.ofDescriptors ds).readMut ⟨T, x⟩ = .error (f, x)) ∧
      (∀ f after, (Chain.ofDescriptors ds).readMut ⟨T, x⟩ = .error (f, after) →
        after = x ∧ ∃ member index, f = .missingIntermediate member index) ∧
      (∀ s, (Chain.ofDescriptors ds).readMut ⟨T, x⟩ = .ok s → s.restore = x ∧
        ∀ w, (Chain.ofDescriptors ds).read ⟨T, s.fill w⟩ = .ok ⟨s.ty, w⟩ ∧
          (Chain.ofDescriptors ds).readMut ⟨T, s.fill w⟩ = .ok ⟨s.ty, w, s.fill⟩) ∧
      ∀ front d more ws w vs, ds = front ++ d :: more → d.unwraps = ws ++ w :: vs →
        ∀ v, (Chain.upTo front d ws).read ⟨T, x⟩ = .ok v →
          (∃ s, (Chain.upTo front d ws).readMut ⟨T, x⟩ = .ok s ∧ s.dyn = v) ∧
            w.unwrap v = (w.unwrapMut v).map Slot.dyn := by
  obtain ⟨hroot, hresolves⟩ := resolves_of_resolve hresolve
  have howns := hresolves.owns hr.toWellTyped
  have hp : p.Typed r := typed_of_resolves hr.toWellTyped (hroot ▸ hresolves)
  have hid : p.root.id = T := by rw [hroot, hr.id_info]
  obtain ⟨u, hreaches⟩ := hp.exists_reaches hr howns hds hmut
  rw [hid] at hreaches
  have hread : ∀ d, (Chain.ofDescriptors ds).read d =
      (Access.walk (Chain.ofDescriptors ds).steps).read d := fun d => (Access.walk_read _ d).symm
  have hborrow : ∀ d, (Chain.ofDescriptors ds).readMut d =
      (Access.walk (Chain.ofDescriptors ds).steps).borrow d := fun d =>
    (Access.walk_borrow _ d).symm
  simp only [hread, hborrow]
  refine ⟨fun v => hreaches.read_eq_ok_iff, fun f => hreaches.read_eq_error_iff,
    fun f after hf => ⟨hreaches.kept hf, hreaches.misses hf⟩,
    fun s hs => ⟨hreaches.restore hs, fun w => ⟨hreaches.read_fill hs w, hreaches.refill hs w⟩⟩, ?_⟩
  intro front d more ws w vs hsplit hws v hv
  obtain ⟨back, hback⟩ := hds
  have hmembers : p.members = front ++ d :: (more ++ back) := by
    rw [← hback, hsplit, List.append_assoc, List.cons_append]
  have hmut : ∀ e ∈ front ++ [d], e.member.isTraversable = true := fun e he => by
    refine hmut e ?_
    rw [hsplit, List.append_cons]
    exact List.mem_append_left _ he
  obtain ⟨u, hupTo, hw⟩ := hp.reaches_upTo hr howns hmembers hmut hws
  rw [hid] at hupTo
  rw [Chain.read, ← Access.walk_read] at hv
  simp only [Chain.readMut, ← Access.walk_borrow]
  obtain ⟨⟨s, content, fill⟩, hs, rfl⟩ := hupTo.read_eq_ok_iff.1 hv
  obtain rfl : s = u := hupTo.arrives hs
  exact ⟨⟨_, hs, rfl⟩, (hr.opens (hw w vs rfl)).unwrap content⟩

/-- In an object with a next one, the chain to the next reads the next and borrows it, and it comes
to the option around the next either way. -/
theorem Declarations.linked_next_reads_as_it_borrows :
    (linked.registry []).LawfulInfos ∧
      ∃ p d w, (linked.registry []).resolve ((linked.registry []).info (Ty.declared 0))
          ["next", "count"] = some (.ok p) ∧
        [d] <+: p.members ∧ (∀ e ∈ [d], e.member.isTraversable = true) ∧ d.unwraps = [w] ∧
        (∃ s, (Chain.ofDescriptors [d]).readMut ⟨Ty.declared 0, linkedPair⟩ = .ok s ∧
          (Chain.ofDescriptors [d]).read ⟨Ty.declared 0, linkedPair⟩ = .ok s.dyn ∧
          s.restore = linkedPair ∧
          ∀ v, (Chain.ofDescriptors [d]).read ⟨Ty.declared 0, s.fill v⟩ = .ok ⟨s.ty, v⟩) ∧
        ∀ v, (Chain.upTo [] d []).read ⟨Ty.declared 0, linkedPair⟩ = .ok v →
          w.unwrap v = (w.unwrapMut v).map Slot.dyn := by
  have hr := linked.lawfulInfos_registry []
  have htest : ((linked.registry []).resolve ((linked.registry []).info (Ty.declared 0))
      ["next", "count"]).any (fun found => found.toOption.any fun p => p.members.head?.any fun d =>
        d.member.isTraversable && decide (d.unwraps.length = 1) &&
          ((Chain.ofDescriptors [d]).readMut ⟨Ty.declared 0, linkedPair⟩).toOption.isSome) =
            true := by
    decide +kernel
  obtain ⟨p, hresolve, htest⟩ := Registry.exists_path_of_any htest
  obtain ⟨d, hd, htest⟩ := (Option.any_eq_true _ _).1 htest
  simp only [Bool.and_eq_true, decide_eq_true_eq] at htest
  obtain ⟨⟨hmut, hlength⟩, hborrows⟩ := htest
  obtain ⟨w, hw⟩ := List.length_eq_one_iff.1 hlength
  obtain ⟨more, hmembers⟩ := List.head?_eq_some_iff.1 hd
  have hds : [d] <+: p.members := ⟨more, hmembers.symm⟩
  have hmut : ∀ e ∈ [d], e.member.isTraversable = true := List.forall_mem_singleton.2 hmut
  obtain ⟨hread, -, -, hstore, hwrappers⟩ :=
    Registry.chain_reads_as_it_borrows hr hresolve hds hmut linkedPair
  refine ⟨hr, p, d, w, hresolve, hds, hmut, hw, ?_, fun v hv => ?_⟩
  · cases hs : (Chain.ofDescriptors [d]).readMut ⟨Ty.declared 0, linkedPair⟩ with
    | error e =>
        rw [hs] at hborrows
        cases hborrows
    | ok s =>
        obtain ⟨hrestore, hfill⟩ := hstore s hs
        exact ⟨s, rfl, (hread s.dyn).2 ⟨s, hs, rfl⟩, hrestore, fun v => (hfill v).1⟩
  · exact (hwrappers [] d [] [] w [] rfl hw v hv).2

end MemberAccess
