import MemberAccess.Registry.TypeInfo
import Mathlib.Order.Bounds.Defs

/-!
# Tables of members keep their names

The index of a table is filled from the list of its members and never looked at without it. So a
member that is found under a name bears that name, and it is the last in the list that does: a
member that is declared later hides those of its name, and no others.

## Main definitions

* `TypeInfo.Tabulated`: a description whose members, if it has any, stand in the table of a list.

## Main results

* `NameIndex.get?_insert`: a name has the position it was given last.
* `NameIndex.get?_insertAll_of_last`: of several positions a name has the last.
* `MemberTable.index?_eq_some_iff`, `MemberTable.index?_eq_none_iff`: the position of a name is that
  of the last member that bears it.
* `MemberTable.name_of_find?`: a member is found under its own name.
* `MemberTable.index?_of_nodup`: among members of different names each is found at its position.
* `TypeInfo.composite_looks_up`: a composite answers for the list of its members.
-/

namespace MemberAccess

variable {U : Universe}

/-! ### Positions by name -/

namespace NameIndex

/-- **A name has the position it was given last.** -/
theorem get?_insert (ix : NameIndex) (name n : String) (position : Nat) :
    (ix.insert name position).get? n = if name = n then some position else ix.get? n := by
  rw [get?, insert, List.find?_cons]
  by_cases hn : name = n
  · simp only [hn, decide_true, Option.map_some, if_true]
  · -- The entries that were dropped are none of `n`.
    have hfilter : (ix.entries.filter (·.1 ≠ name)).find? (·.1 = n) =
        ix.entries.find? (·.1 = n) := by
      rw [List.find?_filter]
      congr 1
      funext entry
      by_cases hentry : entry.1 = n
      · have hname : entry.1 ≠ name := fun h => hn (h.symm.trans hentry)
        simp [hentry ▸ hname, hentry]
      · simp [hentry]
    simp only [hn, decide_false, hfilter, if_false, get?]

/-- A position that was given with consecutive names is the position of the name among them. -/
theorem get?_insertAll {ix : NameIndex} {position i : Nat} {names : List String} {n : String}
    (h : (ix.insertAll position names).get? n = some i) :
    ix.get? n = some i ∨ ∃ k, i = position + k ∧ names[k]? = some n := by
  induction names generalizing ix position with
  | nil => exact .inl h
  | cons name more ih =>
      rcases ih h with hbefore | ⟨k, rfl, hk⟩
      · rw [get?_insert] at hbefore
        by_cases hn : name = n
        · rw [if_pos hn] at hbefore
          obtain rfl := Option.some.inj hbefore
          exact .inr ⟨0, rfl, congrArg some hn⟩
        · rw [if_neg hn] at hbefore
          exact .inl hbefore
      · exact .inr ⟨k + 1, by omega, hk⟩

/-- Names that are inserted do not touch the position of another. -/
theorem get?_insertAll_of_notMem {ix : NameIndex} {position : Nat} {names : List String}
    {n : String} (h : n ∉ names) : (ix.insertAll position names).get? n = ix.get? n := by
  induction names generalizing ix position with
  | nil => rfl
  | cons name more ih =>
      rw [List.mem_cons, not_or] at h
      rw [insertAll, ih h.2, get?_insert, if_neg (Ne.symm h.1)]

/-- **Of several positions a name has the last** after consecutive names were inserted. -/
theorem get?_insertAll_of_last {ix : NameIndex} {position k : Nat} {names : List String}
    {n : String} (hk : names[k]? = some n) (hlast : ∀ j, k < j → names[j]? ≠ some n) :
    (ix.insertAll position names).get? n = some (position + k) := by
  induction names generalizing ix position k with
  | nil => cases hk
  | cons name more ih =>
      cases k with
      | zero =>
          obtain rfl := Option.some.inj hk
          have hmore : name ∉ more := fun hmem => by
            obtain ⟨j, hj⟩ := List.getElem?_of_mem hmem
            exact hlast (j + 1) (Nat.succ_pos j) hj
          rw [insertAll, get?_insertAll_of_notMem hmore, get?_insert, if_pos rfl]
          rfl
      | succ k =>
          rw [insertAll, ih hk fun j hj => hlast (j + 1) (Nat.succ_lt_succ hj)]
          exact congrArg some (by omega)

/-- Names that are inserted in two runs are inserted in one. -/
theorem insertAll_append (ix : NameIndex) (position : Nat) (front back : List String) :
    ix.insertAll position (front ++ back) =
      (ix.insertAll position front).insertAll (position + front.length) back := by
  induction front generalizing ix position with
  | nil => rfl
  | cons name more ih =>
      rw [List.cons_append, insertAll, insertAll, ih, List.length_cons, Nat.add_assoc,
        Nat.add_comm 1]

end NameIndex

/-- A name in a list has a last position. -/
theorem exists_last_of_mem {names : List String} {n : String} (h : n ∈ names) :
    ∃ k : Nat, names[k]? = some n ∧ ∀ j, k < j → names[j]? ≠ some n := by
  induction names with
  | nil => cases h
  | cons name more ih =>
      by_cases hmore : n ∈ more
      · obtain ⟨k, hk, hlast⟩ := ih hmore
        refine ⟨k + 1, hk, fun j hj => ?_⟩
        obtain ⟨j, rfl⟩ := Nat.exists_eq_add_of_lt hj
        exact hlast _ (by omega)
      · obtain rfl := (List.mem_cons.1 h).resolve_right hmore
        refine ⟨0, rfl, fun j hj hj' => ?_⟩
        obtain ⟨j, rfl⟩ := Nat.exists_eq_succ_of_ne_zero (Nat.ne_of_gt hj)
        exact hmore (List.mem_of_getElem? hj')

/-! ### Members -/

section

variable {α : Type} {name : α → String} {members : List α} {i : Nat} {m : α} {n : String}

/-- The position of a name is that of the last member that bears it. -/
theorem MemberTable.index?_of_last (hm : members[i]? = some m)
    (hlast : ∀ j, i < j → (members.map name)[j]? ≠ some (name m)) :
    (ofList name members).index? (name m) = some i := by
  have hname : (members.map name)[i]? = some (name m) := by rw [List.getElem?_map, hm]; rfl
  have hget : (NameIndex.empty.insertAll 0 (members.map name)).get? (name m) = some (0 + i) :=
    NameIndex.get?_insertAll_of_last hname hlast
  rw [Nat.zero_add] at hget
  exact hget

/-- **A name has no position exactly if no member bears it.** -/
theorem MemberTable.index?_eq_none_iff :
    (ofList name members).index? n = none ↔ ∀ m ∈ members, name m ≠ n := by
  constructor
  · intro hnone m hm hname
    obtain ⟨k, hk, hlast⟩ := exists_last_of_mem (List.mem_map.2 ⟨m, hm, hname⟩)
    have hget : (NameIndex.empty.insertAll 0 (members.map name)).get? n = some (0 + k) :=
      NameIndex.get?_insertAll_of_last hk hlast
    cases hnone.symm.trans hget
  · intro h
    have hnotMem : n ∉ members.map name := fun hmem => by
      obtain ⟨m, hm, hname⟩ := List.mem_map.1 hmem
      exact h m hm hname
    exact NameIndex.get?_insertAll_of_notMem hnotMem

/-- **The position of a name is the greatest** at which a member bears it. -/
theorem MemberTable.index?_eq_some_iff :
    (ofList name members).index? n = some i ↔
      IsGreatest {j | ∃ m, members[j]? = some m ∧ name m = n} i := by
  have hlast : ∀ {k}, IsGreatest {j | ∃ m, members[j]? = some m ∧ name m = n} k →
      (ofList name members).index? n = some k := by
    rintro k ⟨⟨m, hm, rfl⟩, hgreatest⟩
    refine index?_of_last hm fun j hj hj' => ?_
    rw [List.getElem?_map, Option.map_eq_some_iff] at hj'
    exact Nat.not_le_of_lt hj (hgreatest hj')
  refine ⟨fun hi => ?_, hlast⟩
  have hmem : n ∈ members.map name := Decidable.byContradiction fun hnotMem => by
    have hnone : (ofList name members).index? n = none :=
      NameIndex.get?_insertAll_of_notMem hnotMem
    cases hi.symm.trans hnone
  obtain ⟨k, hk, hafter⟩ := exists_last_of_mem hmem
  have hk : IsGreatest {j | ∃ m, members[j]? = some m ∧ name m = n} k := by
    rw [List.getElem?_map, Option.map_eq_some_iff] at hk
    refine ⟨hk, fun j hj => Nat.le_of_not_lt fun hlt => hafter j hlt ?_⟩
    rw [List.getElem?_map, Option.map_eq_some_iff]
    exact hj
  obtain rfl := Option.some.inj (hi.symm.trans (hlast hk))
  exact hk

/-- **A member that is appended** is the last of its name, and no other name moves. -/
theorem MemberTable.index?_concat :
    (ofList name (members ++ [m])).index? n =
      if name m = n then some members.length else (ofList name members).index? n := by
  have hindex : (ofList name (members ++ [m])).index =
      (ofList name members).index.insert (name m) members.length := by
    simp only [ofList, List.map_append, NameIndex.insertAll_append, List.length_map, Nat.zero_add]
    rfl
  rw [index?, hindex, NameIndex.get?_insert]
  rfl

/-- **Among members of different names each is found at its position.** -/
theorem MemberTable.index?_of_nodup (h : (members.map name).Nodup) (hm : members[i]? = some m) :
    (ofList name members).index? (name m) = some i := by
  have hname : (members.map name)[i]? = some (name m) := by rw [List.getElem?_map, hm]; rfl
  refine index?_of_last hm fun j hj hother => ?_
  have hi := (List.getElem?_eq_some_iff.1 hname).1
  exact Nat.ne_of_lt hj ((List.getElem?_inj hi h).1 (hname.trans hother.symm))

/-- Among members of different names each is found under its own. -/
theorem MemberTable.find?_of_nodup (h : (members.map name).Nodup) (hm : members[i]? = some m) :
    (ofList name members).find? (name m) = some m := by
  rw [find?, index?_of_nodup h hm]
  exact hm

/-- A member of a list of different names is found under its own. -/
theorem MemberTable.find?_of_mem (h : (members.map name).Nodup) (hm : m ∈ members) :
    (ofList name members).find? (name m) = some m := by
  obtain ⟨i, hi⟩ := List.mem_iff_getElem?.1 hm
  exact find?_of_nodup h hi

end

/-- **A member is found under its own name,** in the table of a list. -/
theorem MemberTable.name_of_find? {α : Type} {name : α → String} {members : List α} {n : String}
    {m : α} (h : (ofList name members).find? n = some m) : name m = n := by
  obtain ⟨i, hi, hm⟩ := Option.bind_eq_some_iff.1 h
  rcases NameIndex.get?_insertAll hi with hempty | ⟨k, rfl, hk⟩
  · cases hempty
  · have hm : members[k]? = some m := by
      rw [Nat.zero_add] at hm
      exact hm
    rw [List.getElem?_map, hm] at hk
    exact Option.some.inj hk

/-- A name that has a position is that of the member there, which is found under it. -/
theorem MemberTable.exists_of_index? {α : Type} {name : α → String} {members : List α}
    {n : String} {i : Nat} (h : (ofList name members).index? n = some i) :
    ∃ m, members[i]? = some m ∧ name m = n ∧ (ofList name members).find? n = some m := by
  obtain ⟨m, hm, hname⟩ := (index?_eq_some_iff.1 h).1
  exact ⟨m, hm, hname, Option.bind_eq_some_iff.2 ⟨i, h, hm⟩⟩

/-- A member that is appended is found under its own name. -/
theorem MemberTable.find?_concat_self {α : Type} {name : α → String} {members : List α} {m : α} :
    (ofList name (members ++ [m])).find? (name m) = some m := by
  rw [find?, index?_concat, if_pos rfl, Option.bind_some]
  exact List.getElem?_concat_length

/-- **A member that is appended hides none of another name.** -/
theorem MemberTable.find?_concat_of_ne {α : Type} {name : α → String} {members : List α} {m : α}
    {n : String} (h : name m ≠ n) :
    (ofList name (members ++ [m])).find? n = (ofList name members).find? n := by
  rw [find?, index?_concat, if_neg h, find?]
  cases hi : (ofList name members).index? n with
  | none => rfl
  | some i =>
      obtain ⟨member, hmember, -⟩ := exists_of_index? hi
      exact List.getElem?_append_left (List.getElem?_eq_some_iff.1 hmember).1

/-- **A description whose members stand in the table of a list,** as those of all composites that
are described by their members do. -/
def TypeInfo.Tabulated (i : TypeInfo U) : Prop :=
  ∀ table, i.composite? = some table → ∃ members, table = .ofList Member.name members

/-- A composite keeps its members in a table that is made of them. -/
theorem TypeInfo.tabulated_composite (t : U.Ty) (members : List (Member U)) :
    (composite t members).Tabulated :=
  fun _ h => ⟨members, (Option.some.inj h).symm⟩

/-- **A composite answers for the list of its members,** whatever names occur twice. Its members,
their names, their number and the member at each position are those of the list. A name has the
greatest position at which a member bears it, and none exactly if no member does; under the name the
member at that position is found, which bears it. And a member that is appended to the list is found
under its own name, at the end, while every other name is answered as before. -/
theorem TypeInfo.composite_looks_up (t : U.Ty) (ms : List (Member U)) :
    ∃ table, (composite t ms).composite? = some table ∧
      (table.members = ms ∧ table.names = ms.map Member.name ∧ table.size = ms.length ∧
        ∀ i, table.at? i = ms[i]?) ∧
      (∀ n,
        (∀ i, table.index? n = some i ↔ IsGreatest {j | ∃ m, ms[j]? = some m ∧ m.name = n} i) ∧
        (table.index? n = none ↔ ∀ m ∈ ms, m.name ≠ n) ∧
        (∀ i, table.index? n = some i →
          ∃ m, table.at? i = some m ∧ m.name = n ∧ table.find? n = some m) ∧
        (table.index? n = none → table.find? n = none)) ∧
      ∀ m, ∃ longer, (composite t (ms ++ [m])).composite? = some longer ∧
        longer.index? m.name = some ms.length ∧ longer.find? m.name = some m ∧
        ∀ n, n ≠ m.name → longer.index? n = table.index? n ∧ longer.find? n = table.find? n := by
  refine ⟨.ofList Member.name ms, rfl, ⟨rfl, rfl, rfl, fun i => rfl⟩, fun n => ?_, fun m => ?_⟩
  · refine ⟨fun i => MemberTable.index?_eq_some_iff, MemberTable.index?_eq_none_iff,
      fun i hi => MemberTable.exists_of_index? hi, fun hnone => ?_⟩
    rw [MemberTable.find?, hnone, Option.bind_none]
  · refine ⟨.ofList Member.name (ms ++ [m]), rfl, ?_, MemberTable.find?_concat_self,
      fun n hn => ⟨?_, MemberTable.find?_concat_of_ne hn.symm⟩⟩
    · rw [MemberTable.index?_concat, if_pos rfl]
    · rw [MemberTable.index?_concat, if_neg hn.symm]

end MemberAccess
