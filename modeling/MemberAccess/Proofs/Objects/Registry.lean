import MemberAccess.Objects.Describe
import MemberAccess.Proofs.Registry.Acyclic
import MemberAccess.Proofs.Registry.InfoCell
import MemberAccess.Proofs.Registry.Lawful
import MemberAccess.Proofs.Registry.MemberTable

/-!
# The registry of objects

The registry of declared types is lawful whatever the declarations say. All its wrappers come from
views, so they give values of their targets. A member is a place in the row of its owner, and where
a composite type lists a member of its own, the owners have rows: only wrappers may be empty. What
a setter adds is a note of its call, which no member reads.

## Main results

* `Wrapper.ofView_target`: the wrapper of a view gives values of its target.
* `Declarations.wellTyped_registry`, `Declarations.lawful_registry`,
  `Declarations.lawfulInfos_registry`, `Declarations.booksApart_registry`.
* `Declarations.tabulated_registry`, `Declarations.acyclic_registry`: what resolution needs.
-/

namespace MemberAccess

variable {U : Universe}

/-! ### Registries of described types -/

/-- Asking a cell for one description stores it, if there is none. -/
theorem Request.run_single {κ ι : Type} [DecidableEq κ] (key : κ) (info : ι) (c : InfoCell κ ι) :
    ((single key info).run c).2 = (c.getOrInsert key info).2 := by
  simp only [single, run, InfoCell.getOrInsert]
  cases c.get? key with
  | some stored => rfl
  | none => rfl

/-- In a registry of described types, a type has its description or is a leaf. -/
theorem Registry.info_ofTypes (describe : U.Ty → TypeInfo U) (ts : List U.Ty) (t : U.Ty) :
    (Registry.ofTypes describe ts).info t = describe t ∨
      (Registry.ofTypes describe ts).info t = .leaf t := by
  have hcell : ∀ (ts : List U.Ty) (c : InfoCell U.Ty (TypeInfo U)),
      (∀ i, c.get? t = some i → i = describe t) → ∀ i,
      (ts.foldl (fun cell t => ((Request.single t (describe t)).run cell).2) c).get? t = some i →
        i = describe t := by
    intro ts
    induction ts with
    | nil => exact fun _ hc => hc
    | cons key ts ih =>
        intro c hc
        refine ih _ fun i hi => ?_
        simp only [Request.run_single, InfoCell.get?_getOrInsert] at hi
        cases hget : c.get? t with
        | some stored =>
            rw [hget, Option.some_or] at hi
            exact hc i (hget.trans hi)
        | none =>
            rw [hget, Option.none_or] at hi
            by_cases hkey : key = t
            · rw [if_pos hkey, hkey] at hi
              exact (Option.some.inj hi).symm
            · rw [if_neg hkey] at hi
              cases hi
  cases hget : (Registry.ofTypes describe ts).cell.get? t with
  | some i =>
      refine .inl ?_
      have hempty : ∀ i, (InfoCell.empty : InfoCell U.Ty (TypeInfo U)).get? t = some i →
          i = describe t := by
        intro i hi
        cases hi
      rw [Registry.info, hget]
      exact hcell ts .empty hempty i hget
  | none =>
      refine .inr ?_
      rw [Registry.info, hget]
      rfl

/-! ### Wrappers of views -/

namespace Wrapper

variable {nullable : Bool} {W T : U.Ty} {view : U.Val W → Option (U.Val T × (U.Val T → U.Val W))}

/-- **The wrapper of a view** gives values of its target. -/
theorem ofView_target {d e : Dyn U} (h : (ofView nullable W T view).unwrap d = some e) :
    e.ty = T := by
  obtain ⟨v, -, hview⟩ := Option.bind_eq_some_iff.1 h
  obtain ⟨part, -, rfl⟩ := Option.map_eq_some_iff.1 hview
  rfl

/-- The wrapper of a view gives slots of its target. -/
theorem ofView_targetMut {d : Dyn U} {s : Slot U (U.Val d.ty)}
    (h : (ofView nullable W T view).unwrapMut d = some s) : s.ty = T := by
  simp only [ofView] at h
  by_cases hty : d.ty = W
  · rw [dif_pos hty] at h
    obtain ⟨part, -, rfl⟩ := Option.map_eq_some_iff.1 h
    rfl
  · rw [dif_neg hty] at h
    cases h

/-- A view that can be filled again, with what it shows or with anything else, makes a lawful
wrapper. -/
theorem lawful_ofView
    (hrestore : ∀ x part, view x = some part → part.2 part.1 = x)
    (hrefill : ∀ x part, view x = some part → ∀ v, view (part.2 v) = some (v, part.2)) :
    (ofView nullable W T view).Lawful W := by
  have hborrow : ∀ x, (ofView nullable W T view).unwrapMut ⟨W, x⟩ =
      (view x).map fun part => ⟨T, part.1, part.2⟩ := fun x => dif_pos (Eq.refl W)
  refine ⟨fun x => ?_, fun {x s} hs => ?_, fun {x s} hs v => ?_⟩
  · have hread : (ofView nullable W T view).unwrap ⟨W, x⟩ =
        (view x).map fun part => ⟨T, part.1⟩ := by
      simp only [ofView, Dyn.as?_self, Option.bind_some]
    rw [hread, hborrow, Option.map_map]
    rfl
  · rw [hborrow] at hs
    obtain ⟨part, hpart, rfl⟩ := Option.map_eq_some_iff.1 hs
    exact hrestore x part hpart
  · rw [hborrow] at hs
    obtain ⟨part, hpart, rfl⟩ := Option.map_eq_some_iff.1 hs
    rw [hborrow, hrefill x part hpart v]
    rfl

end Wrapper

/-! ### Descriptions of the types of objects -/

/-- What a place holds after a replacement depends on nothing but what it held before. -/
theorem Row.get_set_congr {D : Declarations} {ts : List Ty} {s t : Ty} (p : Place ts s)
    (q : Place ts t) (v : Obj D s) {x y : Row D ts} (h : x.get q = y.get q) :
    (x.set p v).get q = (y.set p v).get q := by
  induction p with
  | head =>
      cases x
      cases y
      cases q with
      | head => rfl
      | tail q => exact h
  | tail p ih =>
      cases x
      cases y
      cases q with
      | head => exact h
      | tail q => exact ih q v h

namespace Declarations

variable (D : Declarations)

/-- The description of a type of objects carries the type. -/
theorem id_describe (t : Ty) : (D.describe t).id = t := by
  cases t with
  | declared n =>
      rw [describe, describeDeclared]
      cases D.shape n with
      | leaf => rfl
      | composite members => rfl
      | wrapper nullable => cases Place.ofNumber? (D.cells n) 0 <;> rfl
  | _ => rfl

/-- The wrappers of the types of objects are around options, boxes and cells. -/
theorem describe_wrapper_cases {t : Ty} {w : Wrapper D.universe}
    (h : (D.describe t).wrapper? = some w) :
    (∃ s, t = .option s ∧ w = D.optionWrapper s) ∨ (∃ s, t = .boxed s ∧ w = D.boxWrapper s) ∨
      ∃ n nullable s, ∃ place : Place (D.cells n) s,
        t = .declared n ∧ D.isWrapper n = true ∧ w = D.cellWrapper nullable n place := by
  cases t with
  | option t => exact .inl ⟨t, rfl, (Option.some.inj h).symm⟩
  | boxed t => exact .inr (.inl ⟨t, rfl, (Option.some.inj h).symm⟩)
  | declared n =>
      rw [describe, describeDeclared] at h
      cases hshape : D.shape n with
      | leaf => simp only [hshape, TypeInfo.leaf, TypeInfo.wrapper?, reduceCtorEq] at h
      | composite members =>
          simp only [hshape, TypeInfo.composite, TypeInfo.wrapper?, reduceCtorEq] at h
      | wrapper nullable =>
          cases hplace : Place.ofNumber? (D.cells n) 0 with
          | none =>
              simp only [hshape, hplace, TypeInfo.leaf, TypeInfo.wrapper?, reduceCtorEq] at h
          | some place =>
              simp only [hshape, hplace, TypeInfo.wrapper, TypeInfo.wrapper?,
                Option.some.injEq] at h
              have hn : D.isWrapper n = true := by rw [isWrapper, hshape]
              exact .inr (.inr ⟨n, nullable, place.1, place.2, rfl, hn, h.symm⟩)
  | _ => simp only [describe, TypeInfo.leaf, TypeInfo.wrapper?, reduceCtorEq] at h

/-- The wrappers of the types of objects are wrappers of views. -/
theorem describe_wrapper {t : Ty} {w : Wrapper D.universe}
    (h : (D.describe t).wrapper? = some w) :
    ∃ nullable T view, w = .ofView nullable t T view := by
  rcases D.describe_wrapper_cases h with
    ⟨s, rfl, rfl⟩ | ⟨s, rfl, rfl⟩ | ⟨n, nullable, s, place, rfl, -, rfl⟩
  · exact ⟨_, _, _, rfl⟩
  · exact ⟨_, _, _, rfl⟩
  · exact ⟨_, _, _, rfl⟩

/-- The wrappers of the types of objects are lawful. -/
theorem lawful_describe_wrapper {t : Ty} {w : Wrapper D.universe}
    (h : (D.describe t).wrapper? = some w) : w.Lawful t := by
  rcases D.describe_wrapper_cases h with
    ⟨s, rfl, rfl⟩ | ⟨s, rfl, rfl⟩ | ⟨n, nullable, s, place, rfl, -, rfl⟩
  · refine Wrapper.lawful_ofView (fun x part hpart => ?_) (fun x part hpart v => ?_)
    all_goals
      cases x with
      | absent => cases hpart
      | present content =>
          obtain rfl := Option.some.inj hpart
          rfl
  · refine Wrapper.lawful_ofView (fun x part hpart => ?_) (fun x part hpart v => ?_)
    all_goals
      cases x with
      | boxed content =>
          obtain rfl := Option.some.inj hpart
          rfl
  · refine Wrapper.lawful_ofView (fun x part hpart => ?_) (fun x part hpart v => ?_)
    · cases x with
      | record _ row calls =>
          obtain rfl := Option.some.inj hpart
          exact congrArg (Obj.record n · calls) (Row.set_get row place)
      | hollow _ _ _ => cases hpart
    · cases x with
      | record _ row calls =>
          obtain rfl := Option.some.inj hpart
          have hfill : (fun y => Obj.record n ((row.set place v).set place y) calls) =
              fun y => Obj.record n (row.set place y) calls :=
            funext fun y => congrArg (Obj.record n · calls) (Row.set_set row place v y)
          have hview : some ((row.set place v).get place,
              fun y => Obj.record n ((row.set place v).set place y) calls) =
                some (v, fun y => Obj.record n (row.set place y) calls) := by
            rw [hfill, Row.get_set]
          exact hview
      | hollow _ _ _ => cases hpart

/-- The registry of objects has the description of a type, or has the type as a leaf. -/
theorem info_registry (others : List Ty) (t : Ty) :
    (D.registry others).info t = D.describe t ∨ (D.registry others).info t = .leaf t :=
  Registry.info_ofTypes (U := D.universe) D.describe _ t

/-- **The registry of objects is well typed.** -/
theorem wellTyped_registry (others : List Ty) : (D.registry others).WellTyped := by
  have hwrapper : ∀ {t : Ty} {w : Wrapper D.universe},
      ((D.registry others).info t).wrapper? = some w →
        ∃ nullable T view, w = .ofView nullable t T view := by
    intro t w hw
    rcases D.info_registry others t with h | h
    · exact D.describe_wrapper (h ▸ hw)
    · rw [h] at hw
      cases hw
  refine ⟨fun t => ?_, fun hw x d hd => ?_, fun hw x s hs => ?_⟩
  · rcases D.info_registry others t with h | h
    · rw [h]
      exact D.id_describe t
    · rw [h]
      rfl
  · obtain ⟨nullable, T, view, rfl⟩ := hwrapper hw
    exact Wrapper.ofView_target hd
  · obtain ⟨nullable, T, view, rfl⟩ := hwrapper hw
    exact Wrapper.ofView_targetMut hs

/-! ### Tables and cycles -/

/-- The members of a type of objects stand in the table of a list. -/
theorem tabulated_describe (t : Ty) : (D.describe t).Tabulated := by
  cases t with
  | declared n =>
      rw [describe, describeDeclared]
      cases D.shape n with
      | composite members => exact TypeInfo.tabulated_composite (U := D.universe) _ _
      | leaf => exact fun _ h => nomatch h
      | wrapper nullable => cases Place.ofNumber? (D.cells n) 0 <;> exact fun _ h => nomatch h
  | _ => exact fun _ h => nomatch h

/-- **The tables of the registry of objects** are those of lists. -/
theorem tabulated_registry (others : List Ty) (t : Ty) :
    ((D.registry others).info t).Tabulated := by
  rcases D.info_registry others t with h | h
  · exact h ▸ D.tabulated_describe t
  · exact h ▸ fun _ h => nomatch h

/-- Unless declared types are wrappers, what a wrapper of the registry wraps is a part of it. -/
theorem sizeOf_lt_of_wraps (hD : ∀ n, D.isWrapper n = false) {others : List Ty} {s t : Ty}
    (h : (D.registry others).Wraps s t) : sizeOf t < sizeOf s := by
  obtain ⟨w, hw, rfl⟩ := h
  rcases D.info_registry others s with hinfo | hinfo
  · rw [hinfo] at hw
    rcases D.describe_wrapper_cases hw with
      ⟨t, rfl, rfl⟩ | ⟨t, rfl, rfl⟩ | ⟨n, nullable, t, place, rfl, hn, rfl⟩
    · simp only [optionWrapper, Wrapper.ofView, Ty.option.sizeOf_spec]
      omega
    · simp only [boxWrapper, Wrapper.ofView, Ty.boxed.sizeOf_spec]
      omega
    · exact absurd ((hD n).symm.trans hn) Bool.false_ne_true
  · rw [hinfo] at hw
    cases hw

/-- **Options and boxes alone make no cycle.** -/
theorem acyclic_registry (hD : ∀ n, D.isWrapper n = false) (others : List Ty) :
    (D.registry others).Acyclic := by
  intro t hcycle
  have hlt : ∀ s, Relation.TransGen (D.registry others).Wraps t s → sizeOf s < sizeOf t := by
    intro s hs
    induction hs with
    | single h => exact D.sizeOf_lt_of_wraps hD h
    | tail _ h ih => exact Nat.lt_trans (D.sizeOf_lt_of_wraps hD h) ih
  exact Nat.lt_irrefl _ (hlt t hcycle)

/-! ### Members that address cells -/

/-- **The cell that backs a member,** as a component of the objects of a type that is no wrapper.
They all have rows, so the row `spare` is never taken. -/
def cellComponent {n : Nat} (hn : D.isWrapper n = false)
    (spare : D.isWrapper n = true → Row D (D.cells n)) {t : Ty} (place : Place (D.cells n) t) :
    Component D.universe (.declared n) t where
  read o := (o.rowOr spare).get place
  replace o v := .record n ((o.rowOr spare).set place v) o.calls
  read_replace _ v := Row.get_set _ place v
  replace_replace o v w := congrArg (Obj.record n · o.calls) (Row.set_set _ place v w)
  replace_read
    | .record _ row calls => congrArg (Obj.record n · calls) (Row.set_get row place)
    | .hollow _ h _ => Bool.noConfusion (hn.symm.trans h)

/-- A declared member has the handles of the cell that backs it. -/
theorem member?_handles {d : MemberDeclaration} {m : Member D.universe}
    (h : D.member? d = some m) :
    ∃ (t : Ty) (place : Place (D.cells d.owner) t) (spare : _),
      m.handles = ⟨.declared d.owner, t,
        D.handles d.owner spare d.cell place d.hasGetMut d.hasSet⟩ := by
  obtain ⟨⟨t, place⟩, -, hmake⟩ := Option.bind_eq_some_iff.1 h
  by_cases hwrapper : D.isWrapper d.owner = true
  · rw [dif_pos hwrapper] at hmake
    obtain ⟨row, -, rfl⟩ := Option.map_eq_some_iff.1 hmake
    exact ⟨t, place, _, rfl⟩
  · rw [dif_neg hwrapper] at hmake
    obtain rfl := Option.some.inj hmake
    exact ⟨t, place, _, rfl⟩

/-- **The members of a type of objects** that belong to it have the handles of its cells, and the
type is declared and no wrapper. -/
theorem owns_registry {others : List Ty} {t : Ty} {m : Member D.universe}
    (h : (D.registry others).Owns t m) :
    ∃ n, t = .declared n ∧ D.isWrapper n = false ∧
      ∃ (s : Ty) (place : Place (D.cells n) s) (spare : _) (cell : Nat) (hasGetMut hasSet : Bool),
        m.handles = ⟨.declared n, s, D.handles n spare cell place hasGetMut hasSet⟩ := by
  obtain ⟨⟨table, htable, hm⟩, howner⟩ := h
  rcases D.info_registry others t with hinfo | hinfo
  · rw [hinfo] at htable
    cases t with
    | declared n =>
        rw [describe, describeDeclared] at htable
        cases hshape : D.shape n with
        | composite members =>
            simp only [hshape, TypeInfo.composite, TypeInfo.composite?, Option.some.injEq] at htable
            rw [← htable] at hm
            obtain ⟨d, -, hd⟩ := List.mem_filterMap.1 hm
            obtain ⟨s, place, spare, hhandles⟩ := D.member?_handles hd
            have hn : Ty.declared d.owner = .declared n := by
              rw [← howner, Member.owner, hhandles]
            obtain rfl := Ty.declared.inj hn
            refine ⟨_, rfl, ?_, s, place, spare, _, _, _, hhandles⟩
            rw [isWrapper, hshape]
        | leaf => simp only [hshape, TypeInfo.leaf, TypeInfo.composite?, reduceCtorEq] at htable
        | wrapper nullable =>
            cases hplace : Place.ofNumber? (D.cells n) 0 <;>
              simp only [hshape, hplace, TypeInfo.leaf, TypeInfo.wrapper, TypeInfo.composite?,
                reduceCtorEq] at htable
    | _ => simp only [describe, TypeInfo.leaf, TypeInfo.wrapper, TypeInfo.composite?,
        reduceCtorEq] at htable
  · rw [hinfo] at htable
    cases htable

/-- Objects with the same row read the same in all members of their type. -/
theorem sameMembers_record (others : List Ty) (n : Nat) (row : Row D (D.cells n))
    (calls calls' : List Nat) :
    (D.registry others).SameMembers (.declared n) (.record n row calls) (.record n row calls') := by
  intro m hm
  obtain ⟨k, hk, -, s, place, spare, cell, hasGetMut, hasSet, hhandles⟩ := D.owns_registry hm
  obtain rfl := Ty.declared.inj hk
  rw [hhandles]
  have hread (o : Obj D (.declared n)) :=
    ErasedHandles.read_self (U := D.universe)
      ⟨.declared n, s, D.handles n spare cell place hasGetMut hasSet⟩ o
  exact (hread (.record n row calls)).trans (hread (.record n row calls')).symm

/-- **The registry of objects is lawful:** a member addresses the cell that backs it. -/
theorem lawful_registry (others : List Ty) : (D.registry others).Lawful := by
  refine ⟨D.wellTyped_registry others, fun {t m} hm => ?_⟩
  obtain ⟨n, rfl, hn, s, place, spare, cell, hasGetMut, hasSet, hhandles⟩ := D.owns_registry hm
  rw [hhandles]
  refine ⟨D.cellComponent hn spare place, fun _ => rfl, fun hb o => ?_, fun hs o v => ?_⟩
  · obtain ⟨-, hborrow⟩ := Option.ite_none_right_eq_some.1 hb
    exact congrFun (Option.some.inj hborrow).symm o
  · obtain ⟨-, hstore⟩ := Option.ite_none_right_eq_some.1 hs
    obtain rfl := Option.some.inj hstore
    exact D.sameMembers_record others n _ _ _

/-- **The registry of objects has lawful descriptions.** -/
theorem lawfulInfos_registry (others : List Ty) : (D.registry others).LawfulInfos := by
  refine ⟨D.lawful_registry others, fun {t w} hw => ?_⟩
  rcases D.info_registry others t with h | h
  · exact D.lawful_describe_wrapper (h ▸ hw)
  · rw [h] at hw
    cases hw

/-- Objects of a type that is no wrapper have a row, which members read. -/
theorem get_rowOr {n : Nat} (hn : D.isWrapper n = false) {s t : Ty}
    (spare spare' : D.isWrapper n = true → Row D (D.cells n)) (p : Place (D.cells n) s)
    (q : Place (D.cells n) t) (o : Obj D (.declared n)) (v : Obj D s) (calls : List Nat) :
    (Obj.rowOr spare' (.record n ((o.rowOr spare).set p v) calls)).get q =
      ((o.rowOr spare').set p v).get q := by
  cases o with
  | record _ row _ => rfl
  | hollow _ h _ => exact absurd (hn.symm.trans h) Bool.false_ne_true

/-- **The registry of objects keeps its books apart:** no member reads the noted calls. -/
theorem booksApart_registry (others : List Ty) : (D.registry others).BooksApart := by
  intro m hm store hstore x y v hsame m' hm'
  obtain ⟨name, kind, accessibility, handles⟩ := m
  obtain ⟨n, -, hn, s, place, spare, cell, hasGetMut, hasSet, rfl⟩ := D.owns_registry hm
  have hread' := hsame m' hm'
  obtain ⟨k, hk, -, s', place', spare', cell', hasGetMut', hasSet', hhandles⟩ := D.owns_registry hm'
  obtain rfl := Ty.declared.inj hk
  obtain ⟨-, hset⟩ := Option.ite_none_right_eq_some.1 hstore
  obtain rfl := Option.some.inj hset
  have hread (o : Obj D (.declared n)) :=
    ErasedHandles.read_self (U := D.universe)
      ⟨.declared n, s', D.handles n spare' cell' place' hasGetMut' hasSet'⟩ o
  rw [hhandles] at hread' ⊢
  have hget : (Obj.rowOr spare' x).get place' = (Obj.rowOr spare' y).get place' := by
    have hdyn := Option.some.inj (((hread x).symm.trans hread').trans (hread y))
    exact eq_of_heq (Dyn.mk.inj hdyn).2
  have hx := D.get_rowOr hn spare spare' place place' x v (Obj.calls x ++ [cell])
  have hy := D.get_rowOr hn spare spare' place place' y v (Obj.calls y ++ [cell])
  have hstored := hx.trans ((Row.get_set_congr place place' v hget).trans hy.symm)
  refine (hread _).trans (Eq.trans ?_ (hread _).symm)
  exact congrArg (fun value : Obj D s' => some (Dyn.mk (U := D.universe) s' value)) hstored

/-- Objects that may be linked to a next one of the same type, and count. The count can be assigned
but not borrowed. -/
def linked : Declarations :=
  ⟨"Row", [⟨[.option (.declared 0), .prim .i32],
    .composite [⟨"next", .field, .isPublic, 0, 0, true, true⟩,
      ⟨"count", .property, .isPublic, 0, 1, false, true⟩]⟩]⟩

/-- Linked objects are no wrappers. -/
theorem linked_isWrapper (n : Nat) : linked.isWrapper n = false := by
  cases n <;> rfl

end Declarations

end MemberAccess
