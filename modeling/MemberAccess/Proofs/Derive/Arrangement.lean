import Mathlib.Data.List.Duplicate
import Mathlib.Data.List.Perm.Basic
import MemberAccess.Proofs.Derive.Items
import MemberAccess.Proofs.Derive.Members

/-!
# Attributes may be arranged at will

The items of a field may change their places and may be spread over any number of attributes, and so
may the items of a property between its brackets. Whether they are accepted, and what they say, only
depends on which items there are, and for all but flags on how often.

## Main definitions

* `Distributed`: items that are spread over attributes.
* `PropertyItem.Consists`: items of a property that stand between its brackets.
* `SameUpToFlags`: the same items of a field, in any order.
* `SameUpToOrder`: the same item of a type, with what is said of a property in any order.

## Main results

* `WrittenField.arranged`, `WrittenType.arranged`: the arrangement of items does not matter.
* `WrittenField.not_repeated`, `WrittenType.properties_complete`: what may be said once is not
  repeated anywhere, and what must be said is said.
* `attributes_arranged_at_will`: all of these.
-/

namespace MemberAccess

open Source ItemReader

variable {α β γ : Type}

/-! ### Lists of items and of values -/

section

variable {r : α → β → Prop}

/-- What stands in a list has a partner in the other. -/
theorem exists_mem_of_forall₂ {as : List α} {bs : List β} (h : List.Forall₂ r as bs) {a : α}
    (ha : a ∈ as) : ∃ b ∈ bs, r a b := by
  induction h with
  | nil => cases ha
  | @cons c b _ _ hcb _ ih =>
      rcases List.mem_cons.1 ha with rfl | hmem
      · exact ⟨b, List.mem_cons_self, hcb⟩
      · obtain ⟨d, hd, had⟩ := ih hmem
        exact ⟨d, List.mem_cons_of_mem b hd, had⟩

/-- The partners of partners are found place by place. -/
theorem exists_forall₂_iff {s : β → γ → Prop} {as : List α} {cs : List γ} :
    (∃ bs, List.Forall₂ r as bs ∧ List.Forall₂ s bs cs) ↔
      List.Forall₂ (fun a c => ∃ b, r a b ∧ s b c) as cs := by
  constructor
  · rintro ⟨bs, hr, hs⟩
    induction hr generalizing cs with
    | nil => cases hs; exact .nil
    | cons hab _ ih => cases hs with | cons hbc hmore => exact .cons ⟨_, hab, hbc⟩ (ih hmore)
  · intro h
    induction h with
    | nil => exact ⟨[], .nil, .nil⟩
    | cons hac _ ih =>
        obtain ⟨b, hab, hbc⟩ := hac
        obtain ⟨bs, hr, hs⟩ := ih
        exact ⟨b :: bs, .cons hab hr, .cons hbc hs⟩

/-- Where the order of values does not matter, that of the items does not either. -/
theorem exists_forall₂_perm {Q : List β → Prop} (hQ : ∀ {bs cs}, bs.Perm cs → Q bs → Q cs)
    {as as' : List α} (h : as.Perm as') :
    (∃ bs, List.Forall₂ r as bs ∧ Q bs) ↔ ∃ bs, List.Forall₂ r as' bs ∧ Q bs := by
  have hone : ∀ {as as' : List α}, as.Perm as' → (∃ bs, List.Forall₂ r as bs ∧ Q bs) →
      ∃ bs, List.Forall₂ r as' bs ∧ Q bs := by
    rintro as as' h ⟨bs, hr, hbs⟩
    obtain ⟨cs, hcs, hperm⟩ := List.perm_comp_forall₂ h.symm hr
    exact ⟨cs, hcs, hQ hperm.symm hbs⟩
  exact ⟨hone h, hone h.symm⟩

end

/-- At most one value is the same value in any order. -/
theorem eq_toList_of_perm {as bs : List α} {out : Option α} (h : as.Perm bs)
    (has : as = out.toList) : bs = out.toList := by
  subst has
  cases out with
  | none => exact h.nil_eq.symm
  | some a => exact List.perm_singleton.1 h.symm

/-- What is given at most once is not given by two items. -/
theorem not_sublist_of_filterMap {slot : α → Option β} {as : List α} {out : Option β}
    (h : as.filterMap slot = out.toList) {a b : α} (ha : (slot a).isSome) (hb : (slot b).isSome) :
    ¬[a, b].Sublist as := by
  intro hsub
  obtain ⟨x, hx⟩ := Option.isSome_iff_exists.1 ha
  obtain ⟨y, hy⟩ := Option.isSome_iff_exists.1 hb
  have hle : [x, y].length ≤ out.toList.length := by
    rw [← h]
    simpa [hx, hy] using (hsub.filterMap slot).length_le
  cases out <;> simp at hle

/-- The heads of items are their keys. -/
theorem heads_eq {R : Writing α} {key : α → String}
    (hkey : ∀ {ts a}, R ts a [] → ts.head? = some (.word (key a))) {items : List (List TokenTree)}
    {as : List α} (h : List.Forall₂ (fun ts a => R ts a []) items as) :
    items.map List.head? = as.map fun a => some (.word (key a)) := by
  induction h with
  | nil => rfl
  | cons ha _ ih => rw [List.map_cons, List.map_cons, hkey ha, ih]

/-- Two items have the key that stands in two places. -/
theorem exists_sublist_of_duplicate {f : α → β} {as : List α} {b : β}
    (h : List.Duplicate b (as.map f)) : ∃ a a', [a, a'].Sublist as ∧ f a = b ∧ f a' = b := by
  obtain ⟨sub, hsub, hmap⟩ := List.sublist_map_iff.1 (List.duplicate_iff_sublist.1 h)
  rcases sub with _ | ⟨a, _ | ⟨a', _ | ⟨_, _⟩⟩⟩ <;> simp at hmap
  exact ⟨a, a', hsub, hmap.1.symm, hmap.2.symm⟩

/-! ### Arrangements -/

/-- Items that each have a comma behind them are a list of items. -/
theorem parted_flatMap {items : List (List TokenTree)} (h : items ≠ []) :
    Parted items (items.flatMap (· ++ [.mark ',' false])) := by
  induction items with
  | nil => exact absurd rfl h
  | cons ts more ih =>
      cases more with
      | nil => simpa using Parted.closed ts false
      | cons us more =>
          have hmore := Parted.more ts false (ih (List.cons_ne_nil us more))
          simpa using hmore

/-- **Items that are spread over attributes,** whatever they say. -/
structure Distributed (items attributes : List (List TokenTree)) : Prop where
  spread : Spread items attributes
  ne_nil : ∀ ts ∈ items, ts ≠ []
  noComma : ∀ ts ∈ items, NoComma ts

/-- Items without commas are items, however they are spread. -/
theorem Distributed.isItem {R : Writing α} {items attributes : List (List TokenTree)}
    (h : Distributed items attributes) (hR : R.IsPlain) : ∀ ts ∈ items, IsItem R ts :=
  fun ts hts => isItem_of_noComma hR (h.ne_nil ts hts) (h.noComma ts hts)

/-- **Items of a property that stand between its brackets.** -/
structure PropertyItem.Consists (items : List (List TokenTree)) (content : List TokenTree) :
    Prop where
  parted : Parted items content
  isItem : ∀ ts ∈ items, IsItem Written ts

/-- **The same items of a field, in any order.** Flags may stand there more often. -/
def SameUpToFlags (items items' : List (List TokenTree)) : Prop :=
  ∃ flags, (∀ ts ∈ flags, ts ∈ items ∧ (ts = [.word "skip"] ∨ ts = [.word "readonly"])) ∧
    items'.Perm (flags ++ items)

/-- **The same item of a type,** up to the order of what is said of a property. -/
def SameUpToOrder (ts ts' : List TokenTree) : Prop :=
  ts = ts' ∨ ∃ content content' items items', items.Perm items' ∧
    PropertyItem.Consists items content ∧ PropertyItem.Consists items' content' ∧
    ts = [.word "property", .group .round content] ∧
    ts' = [.word "property", .group .round content']

/-! ### Fields -/

namespace FieldItem

/-- The key of an item. -/
def key : FieldItem → String
  | skip => "skip"
  | readonly => "readonly"
  | rename _ => "rename"
  | visibility _ => "vis"

/-- An item begins with its key. -/
theorem Written.head {ts rest : List TokenTree} {a : FieldItem} (h : Written ts a rest) :
    ts.head? = some (.word a.key) := by
  cases h <;> rfl

/-- A flag is known by its key. -/
theorem eq_of_key {flag item : FieldItem} (hflag : flag = skip ∨ flag = readonly)
    (h : item.key = flag.key) : item = flag := by
  rcases hflag with rfl | rfl <;> cases item <;> first | rfl | simp [key] at h

end FieldItem

namespace FieldAttributes

variable {a : FieldAttributes} {items items' : List FieldItem}

/-- **Items of a field may be said in any order.** -/
theorem SaidBy.perm (h : items.Perm items') (ha : a.SaidBy items) : a.SaidBy items' where
  skip := ha.skip.trans h.mem_iff
  readonly := ha.readonly.trans h.mem_iff
  rename := eq_toList_of_perm (h.filterMap _) ha.rename
  visibility := eq_toList_of_perm (h.filterMap _) ha.visibility

/-- **A flag that is said already may be said again.** -/
theorem saidBy_cons_iff {flag : FieldItem} (hflag : flag = .skip ∨ flag = .readonly)
    (hmem : flag ∈ items) : a.SaidBy (flag :: items) ↔ a.SaidBy items := by
  have hsame : ∀ item, item ∈ flag :: items ↔ item ∈ items := fun item =>
    ⟨fun h => (List.mem_cons.1 h).elim (fun heq => heq ▸ hmem) id, List.mem_cons_of_mem _⟩
  have hname : (flag :: items).filterMap FieldItem.name? = items.filterMap FieldItem.name? := by
    rcases hflag with rfl | rfl <;> rfl
  have hvisibility :
      (flag :: items).filterMap FieldItem.visibility? = items.filterMap FieldItem.visibility? := by
    rcases hflag with rfl | rfl <;> rfl
  constructor
  · rintro ⟨hskip, hreadonly, hrename, hvis⟩
    exact ⟨hskip.trans (hsame _), hreadonly.trans (hsame _), hname ▸ hrename, hvisibility ▸ hvis⟩
  · rintro ⟨hskip, hreadonly, hrename, hvis⟩
    exact ⟨hskip.trans (hsame _).symm, hreadonly.trans (hsame _).symm, hname.trans hrename,
      hvisibility.trans hvis⟩

/-- **A name is not given twice, and neither is an accessibility.** -/
theorem SaidBy.key_not_sublist (h : a.SaidBy items) {b c : FieldItem} {w : String}
    (hw : w = "rename" ∨ w = "vis") (hb : b.key = w) (hc : c.key = w) : ¬[b, c].Sublist items := by
  rcases hw with rfl | rfl
  · have hname : ∀ item : FieldItem, item.key = "rename" → item.name?.isSome := by
      intro item hitem
      cases item <;> simp_all [FieldItem.key, FieldItem.name?]
    exact not_sublist_of_filterMap h.rename (hname b hb) (hname c hc)
  · have hvisibility : ∀ item : FieldItem, item.key = "vis" → item.visibility?.isSome := by
      intro item hitem
      cases item <;> simp_all [FieldItem.key, FieldItem.visibility?]
    exact not_sublist_of_filterMap h.visibility (hvisibility b hb) (hvisibility c hc)

end FieldAttributes

/-- What flags that are repeated say was said before. -/
theorem exists_saidBy_append_iff {a : FieldAttributes} {flags items : List (List TokenTree)}
    (hflags : ∀ ts ∈ flags, ts ∈ items ∧ (ts = [.word "skip"] ∨ ts = [.word "readonly"])) :
    (∃ said, List.Forall₂ (fun ts item => FieldItem.Written ts item []) (flags ++ items) said ∧
      a.SaidBy said) ↔
      ∃ said, List.Forall₂ (fun ts item => FieldItem.Written ts item []) items said ∧
        a.SaidBy said := by
  induction flags with
  | nil => rfl
  | cons ts flags ih =>
      rw [List.forall_mem_cons] at hflags
      rw [← ih hflags.2]
      -- The flag is written as one item only, and this is among the others as well.
      obtain ⟨flag, hflag, hwritten⟩ : ∃ flag : FieldItem,
          (flag = .skip ∨ flag = .readonly) ∧ FieldItem.Written ts flag [] := by
        rcases hflags.1.2 with rfl | rfl
        · exact ⟨.skip, .inl rfl, .skip⟩
        · exact ⟨.readonly, .inr rfl, .readonly⟩
      have hsingle : ∀ item, FieldItem.Written ts item [] → item = flag := fun item h =>
        FieldItem.eq_of_key hflag
          (TokenTree.word.inj (Option.some.inj (h.head.symm.trans hwritten.head)))
      have hmem : ∀ {said}, List.Forall₂ (fun ts item => FieldItem.Written ts item [])
          (flags ++ items) said → flag ∈ said := by
        intro said h
        obtain ⟨item, hitem, hread⟩ := exists_mem_of_forall₂ h (List.mem_append_right _ hflags.1.1)
        rwa [← hsingle item hread]
      constructor
      · rintro ⟨_, _ | ⟨hread, hmore⟩, ha⟩
        rw [hsingle _ hread] at ha
        exact ⟨_, hmore, (FieldAttributes.saidBy_cons_iff hflag (hmem hmore)).1 ha⟩
      · rintro ⟨said, hmore, ha⟩
        exact ⟨flag :: said, .cons hwritten hmore,
          (FieldAttributes.saidBy_cons_iff hflag (hmem hmore)).2 ha⟩

namespace WrittenField

variable {f g : WrittenField} {items items' : List (List TokenTree)} {a : FieldAttributes}

/-- **What items of a field say together is said by what each of them says.** -/
theorem ofAttributes_eq_ok_iff_forall₂ (h : Distributed items f.attributes) :
    FieldAttributes.ofAttributes f.declaration.attributes = .ok a ↔
      ∃ said, List.Forall₂ (fun ts item => FieldItem.Written ts item []) items said ∧
        a.SaidBy said := by
  rw [ofAttributes_eq_ok_iff, Says]
  simp only [AttributesWritten.iff_forall₂ readsItems_field FieldItem.isPlain_written.isLocal
    h.spread (h.isItem FieldItem.isPlain_written)]

/-- **The items of a field may be arranged at will.** -/
theorem arranged (hf : Distributed items f.attributes) (hg : Distributed items' g.attributes)
    (hsame : SameUpToFlags items items') :
    FieldAttributes.ofAttributes f.declaration.attributes = .ok a ↔
      FieldAttributes.ofAttributes g.declaration.attributes = .ok a := by
  obtain ⟨flags, hflags, hperm⟩ := hsame
  rw [ofAttributes_eq_ok_iff_forall₂ hf, ofAttributes_eq_ok_iff_forall₂ hg,
    ← exists_saidBy_append_iff hflags, exists_forall₂_perm FieldAttributes.SaidBy.perm hperm]

/-- **A name or an accessibility that is given twice is refused,** wherever it is. -/
theorem not_repeated (hf : Distributed items f.attributes) {w : String}
    (hw : w = "rename" ∨ w = "vis")
    (htwice : List.Duplicate (some (.word w)) (items.map List.head?)) :
    FieldAttributes.ofAttributes f.declaration.attributes ≠ .ok a := by
  intro h
  obtain ⟨said, hsaid, ha⟩ := (ofAttributes_eq_ok_iff_forall₂ hf).1 h
  rw [heads_eq (R := FieldItem.Written) FieldItem.Written.head hsaid] at htwice
  obtain ⟨b, c, hsub, hb, hc⟩ := exists_sublist_of_duplicate htwice
  simp only [Option.some.injEq, TokenTree.word.injEq] at hb hc
  exact ha.key_not_sublist hw hb hc hsub

/-- **What is accepted consists of items.** -/
theorem exists_spread (h : FieldAttributes.ofAttributes f.declaration.attributes = .ok a) :
    ∃ items, Distributed items f.attributes := by
  obtain ⟨said, hwritten, -⟩ := ofAttributes_eq_ok_iff.1 h
  obtain ⟨items, hspread, hitems, hsaid⟩ :=
    hwritten.exists_spread readsItems_field FieldItem.isPlain_written.isLocal
  refine ⟨items, hspread, fun ts hts => (hitems ts hts).ne_nil, fun ts hts => ?_⟩
  obtain ⟨item, -, hread⟩ := exists_mem_of_forall₂ hsaid hts
  obtain ⟨w, hw, hcomma, -⟩ := FieldItem.isPlain_written _ _ _ hread
  rw [List.append_nil] at hw
  rwa [hw]

end WrittenField

/-! ### Properties -/

namespace PropertyItem

/-- The key of an item. -/
def key : PropertyItem → String
  | name _ => "name"
  | type _ => "ty"
  | get _ => "get"
  | getMut _ => "get_mut"
  | set _ => "set"
  | setVisibility _ => "set_vis"

/-- An item begins with its key. -/
theorem Written.head {ts rest : List TokenTree} {a : PropertyItem} (h : Written ts a rest) :
    ts.head? = some (.word a.key) := by
  cases h <;> rfl

/-- Whether code is read as one item, to its end. -/
def isWhole (ts : List TokenTree) : Bool :=
  match (ofCode CodeReader.key >>= read) ⟨ts, none⟩ with
  | .error _ => false
  | .ok after => after.2.rest.isEmpty && after.2.leftOver.isNone

/-- Code that is read as one item to its end stands for one. -/
theorem isItem_of_isWhole {ts : List TokenTree} (h : isWhole ts = true) : IsItem Written ts := by
  rw [isWhole] at h
  split at h
  · cases h
  · rename_i after hread
    obtain ⟨a, rest, leftOver⟩ := after
    obtain ⟨hrest, hleft⟩ := (Bool.and_eq_true _ _).mp h
    obtain rfl := List.isEmpty_iff.1 hrest
    obtain rfl := Option.isNone_iff_eq_none.1 hleft
    exact readsItems_property.isItem isLocal_written (readsItems_property.sound hread rfl trivial)

/-- The items of a property are plain in their list, since they stand between brackets. -/
theorem isPlain_listRead : ListRead.IsPlain := by
  rintro _ l rest ⟨hfault, content, rfl, hlisted⟩
  refine ⟨[.word "property", .group .round content], rfl, fun j hmem => by simp at hmem,
    fun more => ⟨hfault, content, rfl, hlisted⟩⟩

end PropertyItem

namespace PropertyDeclaration

variable {p : PropertyDeclaration} {items items' : List PropertyItem}

/-- **Items of a property may be said in any order.** -/
theorem DeclaredBy.perm (h : items.Perm items') (hp : p.DeclaredBy items) :
    p.DeclaredBy items' where
  name := List.perm_singleton.1 (hp.name ▸ (h.filterMap _).symm)
  type := List.perm_singleton.1 (hp.type ▸ (h.filterMap _).symm)
  get := List.perm_singleton.1 (hp.get ▸ (h.filterMap _).symm)
  getMut := eq_toList_of_perm (h.filterMap _) hp.getMut
  set := eq_toList_of_perm (h.filterMap _) hp.set
  setVisibility :=
    let ⟨v, hv, hvisibility⟩ := hp.setVisibility
    ⟨v, eq_toList_of_perm (h.filterMap _) hv, hvisibility⟩

/-- **Nothing is said twice of a property.** -/
theorem DeclaredBy.key_not_sublist (h : p.DeclaredBy items) {b c : PropertyItem}
    (hkey : b.key = c.key) : ¬[b, c].Sublist items := by
  obtain ⟨v, hv, -⟩ := h.setVisibility
  have hname : items.filterMap PropertyItem.name? = (some p.name).toList := h.name
  have htype : items.filterMap PropertyItem.type? = (some p.type).toList := h.type
  have hget : items.filterMap PropertyItem.get? = (some p.get).toList := h.get
  -- Two items with the same key are given for the same slot.
  cases b <;> cases c <;> simp only [PropertyItem.key, String.reduceEq] at hkey
  · exact not_sublist_of_filterMap hname rfl rfl
  · exact not_sublist_of_filterMap htype rfl rfl
  · exact not_sublist_of_filterMap hget rfl rfl
  · exact not_sublist_of_filterMap h.getMut rfl rfl
  · exact not_sublist_of_filterMap h.set rfl rfl
  · exact not_sublist_of_filterMap hv rfl rfl

/-- **A property has a name, a type and a getter.** -/
theorem DeclaredBy.exists_key (h : p.DeclaredBy items) {w : String}
    (hw : w = "name" ∨ w = "ty" ∨ w = "get") : ∃ item ∈ items, item.key = w := by
  have hfirst : ∀ {β : Type} {slot : PropertyItem → Option β} {b : β},
      items.filterMap slot = [b] → ∃ item ∈ items, slot item = some b := fun hslot =>
    List.mem_filterMap.1 (hslot ▸ List.mem_singleton_self _)
  rcases hw with rfl | rfl | rfl
  · obtain ⟨item, hitem, hslot⟩ := hfirst h.name
    exact ⟨item, hitem, by cases item <;> first | rfl | cases hslot⟩
  · obtain ⟨item, hitem, hslot⟩ := hfirst h.type
    exact ⟨item, hitem, by cases item <;> first | rfl | cases hslot⟩
  · obtain ⟨item, hitem, hslot⟩ := hfirst h.get
    exact ⟨item, hitem, by cases item <;> first | rfl | cases hslot⟩

/-- The property that is declared between brackets. -/
def DeclaredIn (content : List TokenTree) (p : PropertyDeclaration) : Prop :=
  ∃ said, Listed PropertyItem.Written content said ∧ p.DeclaredBy said

/-- A property is declared by what each of its items says. -/
theorem declaredIn_iff {content : List TokenTree} {items : List (List TokenTree)}
    (h : PropertyItem.Consists items content) :
    DeclaredIn content p ↔
      ∃ said, List.Forall₂ (fun ts item => PropertyItem.Written ts item []) items said ∧
        p.DeclaredBy said := by
  simp only [DeclaredIn, Listed.iff_forall₂ readsItems_property PropertyItem.isLocal_written
    h.parted h.isItem]

/-- **A property without repetitions and omissions:** no key stands there twice, and those that are
needed stand there. -/
theorem DeclaredIn.complete {content : List TokenTree} {items : List (List TokenTree)}
    (h : DeclaredIn content p) (hitems : PropertyItem.Consists items content) :
    (items.map List.head?).Nodup ∧
      ∀ w, w = "name" ∨ w = "ty" ∨ w = "get" → some (.word w) ∈ items.map List.head? := by
  obtain ⟨said, hsaid, hp⟩ := (declaredIn_iff hitems).1 h
  rw [heads_eq (R := PropertyItem.Written) PropertyItem.Written.head hsaid]
  constructor
  · refine List.nodup_iff_forall_not_duplicate.2 fun head htwice => ?_
    obtain ⟨b, c, hsub, hb, hc⟩ := exists_sublist_of_duplicate htwice
    have hkey : b.key = c.key := TokenTree.word.inj (Option.some.inj (hb.trans hc.symm))
    exact hp.key_not_sublist hkey hsub
  · intro w hw
    obtain ⟨item, hitem, hkey⟩ := hp.exists_key hw
    exact List.mem_map.2 ⟨item, hitem, by rw [hkey]⟩

end PropertyDeclaration

namespace WrittenType

variable {w w' : WrittenType} {items items' : List (List TokenTree)}
variable {ps : List PropertyDeclaration}

/-- An item of a type that declares a property. -/
def Declares (ts : List TokenTree) (p : PropertyDeclaration) : Prop :=
  ∃ content, ts = [.word "property", .group .round content] ∧
    PropertyDeclaration.DeclaredIn content p

/-- A property is declared by the list that is read. -/
theorem declares_iff {ts : List TokenTree} {p : PropertyDeclaration} :
    Declares ts p ↔ ∃ l, PropertyItem.ListRead ts l [] ∧ p.DeclaredBy l.items := by
  constructor
  · rintro ⟨content, rfl, said, hlisted, hp⟩
    exact ⟨⟨said, none⟩, ⟨rfl, content, rfl, hlisted⟩, hp⟩
  · rintro ⟨l, ⟨-, content, rfl, hlisted⟩, hp⟩
    exact ⟨content, rfl, l.items, hlisted, hp⟩

/-- **Each item of a type declares a property.** -/
theorem propertiesOf_eq_ok_iff_forall₂ (h : Distributed items w.attributes) :
    propertiesOf w.declaration.attributes = .ok ps ↔ List.Forall₂ Declares items ps := by
  have hitem := h.isItem PropertyItem.isPlain_listRead
  rw [MemberAccess.propertiesOf_eq_ok_iff]
  simp only [PropertyDeclaration.ofItems_eq_ok_iff, List.forall₂_and_left]
  have hplaces : List.Forall₂ Declares items ps ↔
      ∃ lists, List.Forall₂ (fun ts l => PropertyItem.ListRead ts l []) items lists ∧
        List.Forall₂ (fun l p => PropertyDeclaration.DeclaredBy p l.items) lists ps := by
    rw [exists_forall₂_iff]
    exact ⟨List.Forall₂.imp fun _ _ => declares_iff.1, List.Forall₂.imp fun _ _ => declares_iff.2⟩
  rw [hplaces]
  constructor
  · rintro ⟨hfault, hfaults, hps⟩
    exact ⟨_, (readsItems_list.spread_iff PropertyItem.isPlain_listRead.isLocal h.spread hitem).1
      ⟨hfault, rfl, hfaults⟩, hps⟩
  · rintro ⟨lists, hlists, hps⟩
    obtain ⟨hfault, rfl, hfaults⟩ :=
      (readsItems_list.spread_iff PropertyItem.isPlain_listRead.isLocal h.spread hitem).2 hlists
    exact ⟨hfault, hfaults, hps⟩

/-- What an item declares does not depend on the order of what it says. -/
theorem declares_iff_of_sameUpToOrder {ts ts' : List TokenTree} {p : PropertyDeclaration}
    (h : SameUpToOrder ts ts') : Declares ts p ↔ Declares ts' p := by
  rcases h with rfl | ⟨content, content', items, items', hperm, hitems, hitems', rfl, rfl⟩
  · rfl
  · have hsame : PropertyDeclaration.DeclaredIn content p ↔
        PropertyDeclaration.DeclaredIn content' p := by
      rw [PropertyDeclaration.declaredIn_iff hitems, PropertyDeclaration.declaredIn_iff hitems',
        exists_forall₂_perm PropertyDeclaration.DeclaredBy.perm hperm]
    simpa [Declares] using hsame

/-- **The items of properties may be arranged at will,** and the properties may be spread over
attributes. -/
theorem arranged (hw : Distributed items w.attributes) (hw' : Distributed items' w'.attributes)
    (hsame : List.Forall₂ SameUpToOrder items items') :
    propertiesOf w.declaration.attributes = .ok ps ↔
      propertiesOf w'.declaration.attributes = .ok ps := by
  rw [propertiesOf_eq_ok_iff_forall₂ hw, propertiesOf_eq_ok_iff_forall₂ hw']
  clear hw hw'
  induction hsame generalizing ps with
  | nil => rfl
  | cons hts _ ih =>
      simp only [List.forall₂_cons_left_iff, declares_iff_of_sameUpToOrder hts, ih]

/-- **A declared property has what it needs, and nothing twice.** -/
theorem properties_complete (hw : Distributed items w.attributes)
    (hps : propertiesOf w.declaration.attributes = .ok ps) {content : List TokenTree}
    (hcontent : [.word "property", .group .round content] ∈ items)
    {said : List (List TokenTree)} (hsaid : PropertyItem.Consists said content) :
    (said.map List.head?).Nodup ∧
      ∀ w, w = "name" ∨ w = "ty" ∨ w = "get" → some (.word w) ∈ said.map List.head? := by
  obtain ⟨p, -, content, heq, hp⟩ :=
    exists_mem_of_forall₂ ((propertiesOf_eq_ok_iff_forall₂ hw).1 hps) hcontent
  cases heq
  exact hp.complete hsaid

/-- **What is accepted consists of items,** and so does each property. -/
theorem exists_spread (h : propertiesOf w.declaration.attributes = .ok ps) :
    ∃ items, Distributed items w.attributes ∧ ∀ ts ∈ items, ∃ content said,
      ts = [.word "property", .group .round content] ∧ PropertyItem.Consists said content := by
  rw [MemberAccess.propertiesOf_eq_ok_iff] at h
  simp only [PropertyDeclaration.ofItems_eq_ok_iff, List.forall₂_and_left] at h
  obtain ⟨hfault, hfaults, -⟩ := h
  obtain ⟨items, hspread, hitems, hforall⟩ :=
    (readsItems_list.attributes_iff.1 ⟨hfault, rfl, hfaults⟩).exists_spread readsItems_list
      PropertyItem.isPlain_listRead.isLocal
  have hproperty : ∀ ts ∈ items, ∃ content said,
      ts = [.word "property", .group .round content] ∧ PropertyItem.Consists said content := by
    intro ts hts
    obtain ⟨l, -, -, content, rfl, hlisted⟩ := exists_mem_of_forall₂ hforall hts
    obtain ⟨said, hparted, hsaid, -⟩ :=
      hlisted.exists_parted readsItems_property PropertyItem.isLocal_written
    exact ⟨content, said, rfl, hparted, hsaid⟩
  refine ⟨items, ⟨hspread, fun ts hts => (hitems ts hts).ne_nil, fun ts hts => ?_⟩, hproperty⟩
  obtain ⟨content, said, rfl, -⟩ := hproperty ts hts
  exact fun j hmem => by simp at hmem

end WrittenType

/-- **Attributes may be arranged at will.** Items of a field may be spread over any attributes in
any order, and flags may be repeated, without a change to whether they are accepted and to what they
say; a name or an accessibility is never accepted twice. The items of a property may be permuted
between its brackets as well; a key is never accepted twice there, and a name, a type and a getter
are never missing. Whatever is accepted consists of such items. -/
theorem attributes_arranged_at_will :
    (∀ (f g : WrittenField) (items items' : List (List TokenTree)),
      Distributed items f.attributes → Distributed items' g.attributes →
      SameUpToFlags items items' → ∀ a,
        (FieldAttributes.ofAttributes f.declaration.attributes = .ok a ↔
          FieldAttributes.ofAttributes g.declaration.attributes = .ok a)) ∧
    (∀ (f : WrittenField) (items : List (List TokenTree)), Distributed items f.attributes →
      ∀ key, key = "rename" ∨ key = "vis" →
        List.Duplicate (some (.word key)) (items.map List.head?) →
        ∀ a, FieldAttributes.ofAttributes f.declaration.attributes ≠ .ok a) ∧
    (∀ (w w' : WrittenType) (items items' : List (List TokenTree)),
      Distributed items w.attributes → Distributed items' w'.attributes →
      List.Forall₂ SameUpToOrder items items' → ∀ ps,
        (propertiesOf w.declaration.attributes = .ok ps ↔
          propertiesOf w'.declaration.attributes = .ok ps)) ∧
    (∀ (w : WrittenType) (items : List (List TokenTree)), Distributed items w.attributes →
      ∀ content said, [.word "property", .group .round content] ∈ items →
        PropertyItem.Consists said content →
        (¬(said.map List.head?).Nodup ∨ ∃ key, (key = "name" ∨ key = "ty" ∨ key = "get") ∧
          some (.word key) ∉ said.map List.head?) →
        ∀ ps, propertiesOf w.declaration.attributes ≠ .ok ps) ∧
    (∀ (f : WrittenField) (a : FieldAttributes),
      FieldAttributes.ofAttributes f.declaration.attributes = .ok a →
        ∃ items, Distributed items f.attributes) ∧
    ∀ (w : WrittenType) (ps : List PropertyDeclaration),
      propertiesOf w.declaration.attributes = .ok ps →
        ∃ items, Distributed items w.attributes ∧ ∀ ts ∈ items, ∃ content said,
          ts = [.word "property", .group .round content] ∧
            PropertyItem.Consists said content := by
  refine ⟨fun f g items items' hf hg hsame a => WrittenField.arranged hf hg hsame,
    fun f items hf key hkey htwice a => WrittenField.not_repeated hf hkey htwice,
    fun w w' items items' hw hw' hsame ps => WrittenType.arranged hw hw' hsame, ?_,
    fun f a => WrittenField.exists_spread, fun w ps => WrittenType.exists_spread⟩
  intro w items hw content said hcontent hsaid hfault ps hps
  obtain ⟨hnodup, hneeded⟩ := WrittenType.properties_complete hw hps hcontent hsaid
  rcases hfault with htwice | ⟨key, hkey, hmissing⟩
  · exact htwice hnodup
  · exact hmissing (hneeded key hkey)

/-- A field with attributes. -/
def fieldWith (attributes : List (List TokenTree)) : WrittenField :=
  ⟨"size", .inherited, "u32", attributes⟩

/-- A struct without fields, with attributes. -/
def structWith (attributes : List (List TokenTree)) : WrittenType :=
  ⟨"Cache", false, attributes, .named []⟩

/-- The attribute `access` with arguments. -/
def accessing (content : List TokenTree) : List TokenTree :=
  [.word "access", .group .round content]

/-- A key with a value behind it. -/
def keyWith (key : String) (value : List TokenTree) : List TokenTree :=
  .word key :: .mark '=' false :: value

/-- A type with a comma in it. -/
def mapTokens : List TokenTree :=
  [.word "Map", .mark '<' false, .word "K", .mark ',' false, .word "V", .mark '>' false]

/-- The items of a property, each with a comma behind it. -/
def propertyOf (items : List (List TokenTree)) : List TokenTree :=
  [.word "property", .group .round (items.flatMap (· ++ [.mark ',' false]))]

/-- A key with a value stands for one item, unless the value is a type. -/
theorem isItem_keyWith {key : String} {value : List TokenTree} (hkey : key ≠ "ty")
    (hvalue : NoComma value) : IsItem PropertyItem.Written (keyWith key value) := by
  refine PropertyItem.isItem_of_noComma (List.cons_ne_nil _ _) ?_ (by simpa [keyWith] using hkey)
  exact (hvalue.cons (by simp)).cons (by simp)

/-- A type stands for one item together with its comma. -/
theorem isItem_map : IsItem PropertyItem.Written (keyWith "ty" mapTokens) :=
  PropertyItem.isItem_of_isWhole (by decide +kernel)

/-- One property is an item of a type. -/
theorem distributed_propertyOf (items : List (List TokenTree)) :
    Distributed [propertyOf items] [accessing (propertyOf items)] where
  spread := .access .round [] (.last _) .nil
  ne_nil := by simp [propertyOf]
  noComma := by simp [propertyOf, NoComma]

/-- A flag and a name are spread over attributes, and a type with a comma changes its place. -/
theorem arranged_cache :
    FieldAttributes.ofAttributes (fieldWith
      [accessing (keyWith "rename" [.literal "\"Size\""]), [.word "inline"],
        accessing [.word "skip", .mark ',' false, .word "skip"]]).declaration.attributes =
      .ok ⟨true, false, some "Size", none⟩ ∧
    (∀ a, FieldAttributes.ofAttributes (fieldWith
      [accessing (keyWith "rename" [.literal "\"Size\""]),
        accessing (keyWith "rename" [.literal "\"Count\""])]).declaration.attributes ≠ .ok a) ∧
    propertiesOf (structWith [accessing (propertyOf [keyWith "get" [.word "map"],
      keyWith "ty" mapTokens, keyWith "name" [.literal "\"Map\""]])]).declaration.attributes =
      .ok [⟨⟨"\"Map\"", "Map"⟩, "Map < K , V >", "map", none, none, .isPublic⟩] ∧
    ∀ ps, propertiesOf (structWith [accessing (propertyOf [keyWith "get" [.word "map"],
      keyWith "name" [.literal "\"Map\""]])]).declaration.attributes ≠ .ok ps := by
  obtain ⟨hfield, hrepeated, htype, hproperty, -⟩ := attributes_arranged_at_will
  have hget : IsItem PropertyItem.Written (keyWith "get" [.word "map"]) :=
    isItem_keyWith (by simp) (by simp [NoComma])
  have hname : IsItem PropertyItem.Written (keyWith "name" [.literal "\"Map\""]) :=
    isItem_keyWith (by simp) (by simp [NoComma])
  refine ⟨?_, ?_, ?_, ?_⟩
  · have htogether : Distributed [keyWith "rename" [.literal "\"Size\""], [.word "skip"]]
        [accessing (keyWith "rename" [.literal "\"Size\""] ++ [.mark ',' false, .word "skip"])] :=
      ⟨.access .round [] (.more _ _ (.last _)) .nil, by simp [keyWith], by simp [keyWith, NoComma]⟩
    have hapart : Distributed
        [keyWith "rename" [.literal "\"Size\""], [.word "skip"], [.word "skip"]]
        [accessing (keyWith "rename" [.literal "\"Size\""]), [.word "inline"],
          accessing [.word "skip", .mark ',' false, .word "skip"]] :=
      ⟨.access .round [] (.last _) (.other (by simp [NamesAccess])
        (.access .round [] (.more _ _ (.last _)) .nil)), by simp [keyWith],
        by simp [keyWith, NoComma]⟩
    exact (hfield (fieldWith _) (fieldWith _) _ _ htogether hapart
      ⟨[[.word "skip"]], by simp, List.Perm.swap _ _ _⟩ _).1 (by decide +kernel)
  · have htwice : Distributed
        [keyWith "rename" [.literal "\"Size\""], keyWith "rename" [.literal "\"Count\""]]
        [accessing (keyWith "rename" [.literal "\"Size\""]),
          accessing (keyWith "rename" [.literal "\"Count\""])] :=
      ⟨.access .round [] (.last _) (.access .round [] (.last _) .nil), by simp [keyWith],
        by simp [keyWith, NoComma]⟩
    exact hrepeated (fieldWith _) _ htwice "rename" (.inl rfl)
      (List.Mem.duplicate_cons_self (List.mem_singleton_self _))
  · have hsaid : PropertyItem.Consists [keyWith "name" [.literal "\"Map\""],
        keyWith "ty" mapTokens, keyWith "get" [.word "map"]] _ :=
      ⟨parted_flatMap (by simp), by simpa using ⟨hname, isItem_map, hget⟩⟩
    have hpermuted : PropertyItem.Consists [keyWith "get" [.word "map"],
        keyWith "ty" mapTokens, keyWith "name" [.literal "\"Map\""]] _ :=
      ⟨parted_flatMap (by simp), by simpa using ⟨hget, isItem_map, hname⟩⟩
    have hsame : SameUpToOrder (propertyOf _) (propertyOf _) :=
      .inr ⟨_, _, _, _, (List.reverse_perm _).symm, hsaid, hpermuted, rfl, rfl⟩
    exact (htype (structWith _) (structWith _) _ _ (distributed_propertyOf _)
      (distributed_propertyOf _) (.cons hsame .nil) _).1 (by decide +kernel)
  · have hsaid : PropertyItem.Consists
        [keyWith "get" [.word "map"], keyWith "name" [.literal "\"Map\""]] _ :=
      ⟨parted_flatMap (by simp), by simpa using ⟨hget, hname⟩⟩
    exact hproperty (structWith _) _ (distributed_propertyOf _) _ _ (List.mem_singleton_self _)
      hsaid (.inr ⟨"ty", .inr (.inl rfl), by simp [keyWith]⟩)

end MemberAccess
