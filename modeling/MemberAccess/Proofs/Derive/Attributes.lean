import Mathlib.Data.List.Forall2
import MemberAccess.Derive.Attribute

/-!
# What attributes say

What may be said once is a slot that is filled at most once. The items of all attributes of a
declaration are folded into a state from left to right, and the outcome only depends on what they
give for each slot: nothing or one value. So what items say is told without the fold.

## Main definitions

* `FieldAttributes.SaidBy`: what items of a field say.
* `PropertyDeclaration.DeclaredBy`: the property that items declare.

## Main results

* `foldAttributes_eq_ok_iff`: attributes are folded as one list of items.
* `FieldAttributes.ofAttributes_eq_ok_iff`: the attributes of a field say what their items say.
* `PropertyDeclaration.ofItems_eq_ok_iff`, `propertiesOf_eq_ok_iff`: the properties of attributes
  are those that their items declare.
-/

namespace MemberAccess

open Source

variable {α σ : Type}

/-! ### Folding -/

/-- A list without a fault is folded as its items are. -/
theorem ItemList.fold_eq_ok_iff {step : σ → α → Except DeriveError σ} {s t : σ} {l : ItemList α} :
    l.fold step s = .ok t ↔ l.fault = none ∧ l.items.foldlM step s = .ok t := by
  rw [ItemList.fold]
  cases l.items.foldlM step s <;> cases l.fault <;> simp

/-- **Attributes make of a state what all their items make of it,** and none may have a fault. -/
theorem foldAttributes_eq_ok_iff {step : σ → α → Except DeriveError σ} {s t : σ}
    {attributes : List (ItemList α)} :
    foldAttributes step s attributes = .ok t ↔
      (∀ l ∈ attributes, l.fault = none) ∧
        (attributes.flatMap (·.items)).foldlM step s = .ok t := by
  induction attributes generalizing s with
  | nil => simp [foldAttributes]
  | cons l more ih =>
      rw [foldAttributes, List.foldlM_cons, List.flatMap_cons, List.foldlM_append,
        List.forall_mem_cons]
      constructor
      · intro h
        cases hl : l.fold step s with
        | error e => rw [hl] at h; cases h
        | ok after =>
            rw [hl] at h
            obtain ⟨hfault, hitems⟩ := ItemList.fold_eq_ok_iff.1 hl
            obtain ⟨hfaults, hmore⟩ := ih.1 h
            refine ⟨⟨hfault, hfaults⟩, ?_⟩
            rw [hitems]
            exact hmore
      · rintro ⟨⟨hfault, hfaults⟩, h⟩
        cases hitems : l.items.foldlM step s with
        | error e => rw [hitems] at h; cases h
        | ok after =>
            rw [hitems] at h
            rw [ItemList.fold_eq_ok_iff.2 ⟨hfault, hitems⟩]
            exact ih.2 ⟨hfaults, h⟩

/-- What is made of the entries of a list, one behind the other. -/
theorem foldlM_append_eq_ok_iff {β : Type} {make : α → Except DeriveError β} {as : List α}
    {before after : List β} :
    as.foldlM (fun bs a => (make a).map fun b => bs ++ [b]) before = .ok after ↔
      ∃ bs, after = before ++ bs ∧ List.Forall₂ (fun a b => make a = .ok b) as bs := by
  induction as generalizing before with
  | nil => simp [pure, Except.pure, eq_comm, List.forall₂_nil_left_iff]
  | cons a more ih =>
      rw [List.foldlM_cons]
      cases ha : make a with
      | error e =>
          refine iff_of_false (fun h => by cases h) ?_
          rintro ⟨bs, -, hbs⟩
          cases hbs with
          | cons hb _ => cases ha.symm.trans hb
      | ok b =>
          change more.foldlM _ (before ++ [b]) = _ ↔ _
          rw [ih]
          constructor
          · rintro ⟨bs, rfl, hbs⟩
            exact ⟨b :: bs, by simp, .cons ha hbs⟩
          · rintro ⟨bs, rfl, hbs⟩
            cases hbs with
            | @cons _ c _ cs hc hcs =>
                cases ha.symm.trans hc
                exact ⟨cs, by simp, hcs⟩

/-- A value is stored where there was none. -/
theorem setOnce_bind_eq_ok_iff {β : Type} {slot : Option α} {a : α} {f : Option α → σ}
    {k : σ → Except DeriveError β} {b : β} :
    ((setOnce slot a).map f >>= k) = .ok b ↔ slot = none ∧ k (f (some a)) = .ok b := by
  cases slot with
  | none => simp [setOnce, Except.map, bind, Except.bind]
  | some _ => simp [setOnce, Except.map, bind, Except.bind]

theorem toList_eq_toList_iff {slot out : Option α} : slot.toList = out.toList ↔ slot = out := by
  cases slot <;> cases out <;> simp

/-- A value that is followed by others is stored in the end if it was the first. -/
theorem append_cons_eq_toList_iff {slot out : Option α} {a : α} {later : List α} :
    slot.toList ++ a :: later = out.toList ↔ slot = none ∧ a :: later = out.toList := by
  cases slot with
  | none => simp
  | some b => cases out <;> simp

/-! ### Fields -/

namespace FieldItem

/-- The name that an item gives. -/
def name? : FieldItem → Option String
  | rename name => some name
  | _ => none

/-- The accessibility that an item gives. -/
def visibility? : FieldItem → Option Accessibility
  | visibility v => some v
  | _ => none

end FieldItem

/-- **What items of a field say.** A name and an accessibility are given at most once. -/
structure FieldAttributes.SaidBy (a : FieldAttributes) (items : List FieldItem) : Prop where
  skip : a.skip = true ↔ .skip ∈ items
  readonly : a.readonly = true ↔ .readonly ∈ items
  rename : items.filterMap FieldItem.name? = a.rename.toList
  visibility : items.filterMap FieldItem.visibility? = a.visibility.toList

namespace FieldAttributes

/-- **Items of a field fill what is not said yet,** each slot at most once. -/
theorem foldlM_step_eq_ok_iff {items : List FieldItem} {s a : FieldAttributes} :
    items.foldlM step s = .ok a ↔
      a.skip = (s.skip || decide (.skip ∈ items)) ∧
      a.readonly = (s.readonly || decide (.readonly ∈ items)) ∧
      s.rename.toList ++ items.filterMap FieldItem.name? = a.rename.toList ∧
      s.visibility.toList ++ items.filterMap FieldItem.visibility? = a.visibility.toList := by
  induction items generalizing s with
  | nil =>
      obtain ⟨_, _, _, _⟩ := s
      obtain ⟨_, _, _, _⟩ := a
      simp [pure, Except.pure, toList_eq_toList_iff, eq_comm]
  | cons item more ih =>
      rw [List.foldlM_cons]
      cases item with
      | skip =>
          change more.foldlM step { s with skip := true } = _ ↔ _
          simp [ih, List.filterMap_cons, FieldItem.name?, FieldItem.visibility?]
      | readonly =>
          change more.foldlM step { s with readonly := true } = _ ↔ _
          simp [ih, List.filterMap_cons, FieldItem.name?, FieldItem.visibility?]
      | rename name =>
          rw [step, setOnce_bind_eq_ok_iff, ih]
          simp [List.filterMap_cons, FieldItem.name?, FieldItem.visibility?,
            append_cons_eq_toList_iff]
          tauto
      | visibility v =>
          rw [step, setOnce_bind_eq_ok_iff, ih]
          simp [List.filterMap_cons, FieldItem.name?, FieldItem.visibility?,
            append_cons_eq_toList_iff]
          tauto

end FieldAttributes

/-- **The attributes of a field say what their items say,** unless one of them has a fault. -/
theorem FieldAttributes.ofAttributes_eq_ok_iff {attributes : List (ItemList FieldItem)}
    {a : FieldAttributes} :
    ofAttributes attributes = .ok a ↔
      (∀ l ∈ attributes, l.fault = .none) ∧ a.SaidBy (attributes.flatMap (·.items)) := by
  rw [ofAttributes, foldAttributes_eq_ok_iff, foldlM_step_eq_ok_iff]
  refine and_congr_right fun _ => ?_
  simp only [none, Bool.false_or, Option.toList_none, List.nil_append]
  constructor
  · rintro ⟨hskip, hreadonly, hrename, hvisibility⟩
    exact ⟨by rw [hskip, decide_eq_true_iff], by rw [hreadonly, decide_eq_true_iff], hrename,
      hvisibility⟩
  · rintro ⟨hskip, hreadonly, hrename, hvisibility⟩
    refine ⟨Bool.eq_iff_iff.2 ?_, Bool.eq_iff_iff.2 ?_, hrename, hvisibility⟩
    · rw [decide_eq_true_iff, hskip]
    · rw [decide_eq_true_iff, hreadonly]

/-! ### Properties -/

namespace PropertyItem

/-- The name that an item gives. -/
def name? : PropertyItem → Option StringLiteral
  | name l => some l
  | _ => none

/-- The type that an item gives. -/
def type? : PropertyItem → Option String
  | type t => some t
  | _ => none

/-- The getter that an item gives. -/
def get? : PropertyItem → Option String
  | get m => some m
  | _ => none

/-- The mutable getter that an item gives. -/
def getMut? : PropertyItem → Option String
  | getMut m => some m
  | _ => none

/-- The setter that an item gives. -/
def set? : PropertyItem → Option String
  | set m => some m
  | _ => none

/-- The accessibility that an item gives. -/
def setVisibility? : PropertyItem → Option Accessibility
  | setVisibility v => some v
  | _ => none

end PropertyItem

/-- **The property that items declare.** A name, a type and a getter are given once, and the others
at most once. -/
structure PropertyDeclaration.DeclaredBy (p : PropertyDeclaration) (items : List PropertyItem) :
    Prop where
  name : items.filterMap PropertyItem.name? = [p.name]
  type : items.filterMap PropertyItem.type? = [p.type]
  get : items.filterMap PropertyItem.get? = [p.get]
  getMut : items.filterMap PropertyItem.getMut? = p.getMut.toList
  set : items.filterMap PropertyItem.set? = p.set.toList
  setVisibility : ∃ v : Option Accessibility,
    items.filterMap PropertyItem.setVisibility? = v.toList ∧ p.setVisibility = v.getD .isPublic

namespace PropertyItems

/-- **Items of a property fill its slots,** each at most once. -/
theorem foldlM_step_eq_ok_iff {items : List PropertyItem} {s p : PropertyItems} :
    items.foldlM step s = .ok p ↔
      s.name.toList ++ items.filterMap PropertyItem.name? = p.name.toList ∧
      s.type.toList ++ items.filterMap PropertyItem.type? = p.type.toList ∧
      s.get.toList ++ items.filterMap PropertyItem.get? = p.get.toList ∧
      s.getMut.toList ++ items.filterMap PropertyItem.getMut? = p.getMut.toList ∧
      s.set.toList ++ items.filterMap PropertyItem.set? = p.set.toList ∧
      s.setVisibility.toList ++ items.filterMap PropertyItem.setVisibility? =
        p.setVisibility.toList := by
  induction items generalizing s with
  | nil =>
      obtain ⟨_, _, _, _, _, _⟩ := s
      obtain ⟨_, _, _, _, _, _⟩ := p
      simp [pure, Except.pure, toList_eq_toList_iff]
  | cons item more ih =>
      rw [List.foldlM_cons]
      cases item <;>
        rw [step, setOnce_bind_eq_ok_iff, ih] <;>
        simp [List.filterMap_cons, PropertyItem.name?, PropertyItem.type?, PropertyItem.get?,
          PropertyItem.getMut?, PropertyItem.set?, PropertyItem.setVisibility?,
          append_cons_eq_toList_iff] <;>
        tauto

/-- A property has a name, a type and a getter. -/
theorem declaration_eq_ok_iff {q : PropertyItems} {p : PropertyDeclaration} :
    q.declaration = .ok p ↔ q.name = some p.name ∧ q.type = some p.type ∧ q.get = some p.get ∧
      q.getMut = p.getMut ∧ q.set = p.set ∧ p.setVisibility = q.setVisibility.getD .isPublic := by
  obtain ⟨name, type, get, getMut, set, setVisibility⟩ := q
  obtain ⟨_, _, _, _, _, _⟩ := p
  cases name <;> cases type <;> cases get <;> simp [declaration, eq_comm]

end PropertyItems

/-- **A list of items declares a property** if it has no fault and the items declare it. -/
theorem PropertyDeclaration.ofItems_eq_ok_iff {l : ItemList PropertyItem}
    {p : PropertyDeclaration} :
    ofItems l = .ok p ↔ l.fault = none ∧ p.DeclaredBy l.items := by
  have hfold : ofItems l = .ok p ↔
      ∃ q, l.fold PropertyItems.step .none = .ok q ∧ q.declaration = .ok p := by
    rw [ofItems]
    cases l.fold PropertyItems.step .none <;> simp
  rw [hfold]
  constructor
  · rintro ⟨q, hq, hp⟩
    obtain ⟨hfault, hitems⟩ := ItemList.fold_eq_ok_iff.1 hq
    obtain ⟨hname, htype, hget, hgetMut, hset, hvisibility⟩ :=
      PropertyItems.foldlM_step_eq_ok_iff.1 hitems
    obtain ⟨hname', htype', hget', hgetMut', hset', hvisibility'⟩ :=
      PropertyItems.declaration_eq_ok_iff.1 hp
    rw [hname'] at hname
    rw [htype'] at htype
    rw [hget'] at hget
    rw [hgetMut'] at hgetMut
    rw [hset'] at hset
    exact ⟨hfault, hname, htype, hget, hgetMut, hset, q.setVisibility, hvisibility, hvisibility'⟩
  · rintro ⟨hfault, hp⟩
    obtain ⟨v, hv, hvisibility⟩ := hp.setVisibility
    refine ⟨⟨some p.name, some p.type, some p.get, p.getMut, p.set, v⟩,
      ItemList.fold_eq_ok_iff.2 ⟨hfault, PropertyItems.foldlM_step_eq_ok_iff.2 ?_⟩,
      PropertyItems.declaration_eq_ok_iff.2 ⟨rfl, rfl, rfl, rfl, rfl, hvisibility⟩⟩
    exact ⟨hp.name, hp.type, hp.get, hp.getMut, hp.set, hv⟩

/-- **The properties of attributes** are those that their lists declare, in order. -/
theorem propertiesOf_eq_ok_iff {attributes : List (ItemList (ItemList PropertyItem))}
    {ps : List PropertyDeclaration} :
    propertiesOf attributes = .ok ps ↔ (∀ l ∈ attributes, l.fault = none) ∧
      List.Forall₂ (fun l p => PropertyDeclaration.ofItems l = .ok p)
        (attributes.flatMap (·.items)) ps := by
  rw [propertiesOf, foldAttributes_eq_ok_iff, foldlM_append_eq_ok_iff]
  simp

end MemberAccess
