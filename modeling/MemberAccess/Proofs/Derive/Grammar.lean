import MemberAccess.Derive.Item
import MemberAccess.Proofs.Source.Reading

/-!
# How attributes are written

The attribute `access` holds items between commas, each a key alone, a key with a value behind `=`,
or a key with a list between round brackets. What is read of attributes without a fault is what is
written in them. The reader of a list stops when it gets no further; that it always does get further
is what makes it exact, and so is that no reader forgets a leftover.

## Main definitions

* `FieldItem.Written`, `PropertyItem.Written`, `PropertyItem.ListWritten`: how items are written.
* `Listed`, `ArgumentsWritten`, `AttributesWritten`: how lists, arguments and attributes are.
* `ItemReader.ReadsItems`: a reader of items that is exact up to the end of an item.

## Main results

* `ItemReader.ReadsItems.list_sound`, `ItemReader.ReadsItems.list_complete`: an exact reader of
  items makes an exact reader of lists.
* `ItemReader.readsItems_field`, `ItemReader.readsItems_property`, `ItemReader.readsItems_list`: the
  readers of items are exact.
* `ItemReader.ReadsItems.attributes_iff`: what attributes say is what is written in them.
-/

namespace MemberAccess

open Source

variable {α β : Type}

/-! ### Items -/

/-- The string that names an accessibility. -/
def Accessibility.keyword : Accessibility → String
  | isPublic => "public"
  | nonPublic => "non_public"

/-- A string literal that names an accessibility. -/
def Accessibility.Written : Writing Accessibility := fun ts v rest =>
  ∃ l, Writing.string ts l rest ∧ l.value = v.keyword

/-- **How the items of fields are written.** -/
inductive FieldItem.Written : Writing FieldItem
  | skip {rest} : Written (.word "skip" :: rest) .skip rest
  | readonly {rest} : Written (.word "readonly" :: rest) .readonly rest
  | rename {ts l rest} (h : Writing.string.assigned ts l rest) :
      Written (.word "rename" :: ts) (.rename l.value) rest
  | visibility {ts v rest} (h : Accessibility.Written.assigned ts v rest) :
      Written (.word "vis" :: ts) (.visibility v) rest

/-- **How the items of properties are written.** -/
inductive PropertyItem.Written : Writing PropertyItem
  | name {ts l rest} (h : Writing.string.assigned ts l rest) :
      Written (.word "name" :: ts) (.name l) rest
  | type {ts t rest} (h : Writing.type.assigned ts t rest) :
      Written (.word "ty" :: ts) (.type t) rest
  | get {ts m rest} (h : Writing.identifier.assigned ts m rest) :
      Written (.word "get" :: ts) (.get m) rest
  | getMut {ts m rest} (h : Writing.identifier.assigned ts m rest) :
      Written (.word "get_mut" :: ts) (.getMut m) rest
  | set {ts m rest} (h : Writing.identifier.assigned ts m rest) :
      Written (.word "set" :: ts) (.set m) rest
  | setVisibility {ts v rest} (h : Accessibility.Written.assigned ts v rest) :
      Written (.word "set_vis" :: ts) (.setVisibility v) rest

/-- **How lists of items are written:** one item or more, with commas between them. A comma may
follow the last. -/
inductive Listed (R : Writing α) : List TokenTree → List α → Prop
  | last {ts a} (h : R ts a []) : Listed R ts [a]
  | closed {ts a joined} (h : R ts a [.mark ',' joined]) : Listed R ts [a]
  | more {ts a joined rest as} (h : R ts a (.mark ',' joined :: rest)) (hmore : Listed R rest as) :
      Listed R ts (a :: as)

/-- **How a property is written:** its items stand between round brackets. -/
def PropertyItem.ListWritten : Writing (List PropertyItem) := fun ts items rest =>
  ∃ content, ts = .word "property" :: .group .round content :: rest ∧
    Listed PropertyItem.Written content items

/-- A written property as it is read: as a list without a fault. -/
def PropertyItem.ListRead : Writing (ItemList PropertyItem) := fun ts l rest =>
  l.fault = none ∧ PropertyItem.ListWritten ts l.items rest

/-! ### Attributes -/

/-- The attribute `access`, given what stands between its square brackets: the word alone is its
path, so nothing, a group or a `=` follows. -/
def NamesAccess (ts : List TokenTree) : Prop :=
  ts = [.word "access"] ∨ (∃ b content more, ts = .word "access" :: .group b content :: more) ∨
    ∃ joined more, ts = .word "access" :: .mark '=' joined :: more

/-- **How arguments are written:** as a list of items, or there are none. -/
def ArgumentsWritten (R : Writing α) (ts : List TokenTree) (as : List α) : Prop :=
  (ts = [] ∧ as = []) ∨ Listed R ts as

/-- **How the attributes of a declaration are written.** Those that are not `access` say nothing;
the others have arguments between brackets. -/
inductive AttributesWritten (R : Writing α) : List (List TokenTree) → List α → Prop
  | nil : AttributesWritten R [] []
  | other {ts more as} (h : ¬ NamesAccess ts) (hmore : AttributesWritten R more as) :
      AttributesWritten R (ts :: more) as
  | access {b content behind more items as} (h : ArgumentsWritten R content items)
      (hmore : AttributesWritten R more as) :
      AttributesWritten R ((.word "access" :: .group b content :: behind) :: more) (items ++ as)

section

variable {R : Writing α} {S : Writing β} {f : α → β}
variable (hf : ∀ ts a rest, R ts a rest → S ts (f a) rest)
include hf

/-- A list is written in one way if it is in another and each of its items is. -/
theorem Listed.map {ts : List TokenTree} {as : List α} (h : Listed R ts as) :
    Listed S ts (as.map f) := by
  induction h with
  | last h => exact .last (hf _ _ _ h)
  | closed h => exact .closed (hf _ _ _ h)
  | more h _ ih => exact .more (hf _ _ _ h) ih

/-- What is written in one way is written in another if each of its items is. -/
theorem AttributesWritten.map {attributes : List (List TokenTree)} {as : List α}
    (h : AttributesWritten R attributes as) : AttributesWritten S attributes (as.map f) := by
  induction h with
  | nil => exact .nil
  | other h _ ih => exact .other h ih
  | access h _ ih =>
      rw [List.map_append]
      refine .access ?_ ih
      rcases h with ⟨rfl, rfl⟩ | h
      · exact .inl ⟨rfl, rfl⟩
      · exact .inr (h.map hf)

end

section

variable {R : Writing α} {P : α → Prop} (hP : ∀ ts a rest, R ts a rest → P a)
include hP

/-- What holds of each written item holds of all items of a list. -/
theorem Listed.forall_mem {ts : List TokenTree} {as : List α} (h : Listed R ts as) :
    ∀ a ∈ as, P a := by
  induction h with
  | last h => exact List.forall_mem_singleton.2 (hP _ _ _ h)
  | closed h => exact List.forall_mem_singleton.2 (hP _ _ _ h)
  | more h _ ih => exact List.forall_mem_cons.2 ⟨hP _ _ _ h, ih⟩

/-- What holds of each written item holds of all items of attributes. -/
theorem AttributesWritten.forall_mem {attributes : List (List TokenTree)} {as : List α}
    (h : AttributesWritten R attributes as) : ∀ a ∈ as, P a := by
  induction h with
  | nil => exact fun _ ha => absurd ha List.not_mem_nil
  | other _ _ ih => exact ih
  | access h _ ih =>
      rw [List.forall_mem_append]
      refine ⟨?_, ih⟩
      rcases h with ⟨rfl, rfl⟩ | h
      · exact fun _ ha => absurd ha List.not_mem_nil
      · exact h.forall_mem hP

end

/-! ### Readers of items -/

namespace ItemReader

/-- A reader of code is exact as a reader of items. -/
theorem reads_ofCode {r : CodeReader α} {R : Writing α} (h : Reads r R) : Reads (ofCode r) R := by
  intro ts rest leftOver a
  rw [← h, ofCode]
  cases r ⟨ts, leftOver⟩ <;> simp

/-- The reader of a value behind `=` is as exact as that of the value. -/
theorem reads_assigned {r : CodeReader α} {R : Writing α} (h : Reads r R) :
    Reads (assigned r) R.assigned :=
  reads_ofCode (CodeReader.reads_assigned h)

/-- Accessibilities are read behind `=` as they are written. -/
theorem reads_assignedAccessibility :
    Reads assignedAccessibility Accessibility.Written.assigned := by
  intro ts rest leftOver v
  rw [assignedAccessibility, bind_eq_ok_iff]
  constructor
  · rintro ⟨l, e, hl, h⟩
    have hv : e = ⟨rest, none⟩ ∧ l.value = v.keyword := by
      split_ifs at h with hpublic hnonPublic
      · cases h
        exact ⟨rfl, hpublic⟩
      · cases h
        exact ⟨rfl, hnonPublic⟩
      · cases h
    obtain ⟨rfl, hv⟩ := hv
    obtain ⟨hnone, joined, more, hts, hl⟩ := (reads_assigned CodeReader.reads_stringLiteral).1 hl
    exact ⟨hnone, joined, more, hts, l, hl, hv⟩
  · rintro ⟨hnone, joined, more, hts, l, hl, hv⟩
    refine ⟨l, ⟨rest, none⟩,
      (reads_assigned CodeReader.reads_stringLiteral).2 ⟨hnone, joined, more, hts, hl⟩, ?_⟩
    rw [hv]
    cases v <;> rfl

instance forward_ofCode (r : CodeReader α) [Forward r] : Forward (ofCode r) where
  leads {c d a} h := by
    rw [ofCode] at h
    cases hr : r c with
    | error e => rw [hr] at h; cases h
    | ok read =>
        rw [hr] at h
        cases h
        exact Forward.leads hr

instance forward_assigned (r : CodeReader α) [Forward r] : Forward (assigned r) := by
  have hseq : assigned r = ofCode (CodeReader.mark "=" >>= fun _ => r) := rfl
  rw [hseq]
  infer_instance

instance forward_assignedAccessibility : Forward assignedAccessibility := by
  unfold assignedAccessibility
  have : Forward CodeReader.stringLiteral := inferInstance
  infer_instance

instance forward_fieldItem (key : Option String) : Forward (FieldItem.read key) := by
  unfold FieldItem.read
  split <;> infer_instance

instance forward_propertyItem (key : Option String) : Forward (PropertyItem.read key) := by
  unfold PropertyItem.read
  split <;> infer_instance

/-! ### Lists of items -/

/-- The end of an item: the end of the list, or a comma. -/
def EndsItem (ts : List TokenTree) : Prop :=
  ts = [] ∨ ∃ joined more, ts = .mark ',' joined :: more

/-- **A reader of items reads those that are written so and pass `P`,** and nothing else without a
leftover. -/
structure ReadsItems (item : Option String → ItemReader α) (P : α → Prop) (R : Writing α) :
    Prop where
  sound : ∀ {c d a}, (ofCode CodeReader.key >>= item) c = .ok (a, d) → d.leftOver = none → P a →
    R c.rest a d.rest
  complete : ∀ {ts a rest}, R ts a rest → EndsItem rest →
    (ofCode CodeReader.key >>= item) ⟨ts, none⟩ = .ok (a, ⟨rest, none⟩) ∧ P a

/-- **The reader of a list only goes ahead,** also when it stops at a fault. -/
theorem list_leads (item : Option String → ItemReader α) [∀ key, Forward (item key)]
    (c : Cursor) : c.Leads (list item c).2 := by
  fun_induction list item c with
  | case1 c e h => exact .refl c
  | case2 c a after h hend => exact Forward.leads h
  | case3 c a after h hend hmark => exact Forward.leads h
  | case4 c a after h hend ts hmark hprogress later ih =>
      have hcomma : after.Leads ⟨ts, after.leftOver⟩ := .goTo (afterMarks?_suffix hmark)
      exact ((Forward.leads h).trans hcomma).trans ih
  | case5 c a after h hend ts hmark hprogress =>
      exact (Forward.leads h).trans (.goTo (afterMarks?_suffix hmark))

instance forward_nestedList (item : Option String → ItemReader α) [∀ key, Forward (item key)] :
    Forward (nestedList item) where
  leads {c d l} h := by
    unfold nestedList at h
    split at h
    · rename_i content ts hc
      cases h
      exact ⟨hc ▸ List.suffix_cons _ _, (list_leads item ⟨content, c.leftOver⟩).leftOver⟩
    · cases h

instance forward_propertyList (key : Option String) : Forward (PropertyItem.readList key) := by
  unfold PropertyItem.readList
  split <;> infer_instance

variable {item : Option String → ItemReader α} {P : α → Prop} {R : Writing α}

/-- A list of items is not empty. -/
theorem ReadsItems.ne_nil (h : ReadsItems item P R) {ts : List TokenTree} {as : List α}
    (hlisted : Listed R ts as) : ts ≠ [] := by
  rintro rfl
  have hnone : ∀ a rest, R [] a rest → ¬ EndsItem rest := fun a rest ha hrest =>
    nomatch (h.complete ha hrest).1
  cases hlisted with
  | last ha => exact hnone _ _ ha (.inl rfl)
  | closed ha => exact hnone _ _ ha (.inr ⟨_, _, rfl⟩)
  | more ha _ => exact hnone _ _ ha (.inr ⟨_, _, rfl⟩)

variable [∀ key, Forward (item key)]

/-- **What is read as a list without a fault is written as a list.** -/
theorem ReadsItems.list_sound (h : ReadsItems item P R) {c : Cursor}
    (hfault : (list item c).1.fault = none) (hleft : (list item c).2.leftOver = none)
    (hP : ∀ a ∈ (list item c).1.items, P a) : Listed R c.rest (list item c).1.items := by
  fun_induction list item c with
  | case1 c e hitem => cases hfault
  | case2 c a after hitem hend =>
      have ha := h.sound hitem hleft (hP a (List.mem_singleton_self a))
      rw [List.isEmpty_iff.1 hend] at ha
      exact .last ha
  | case3 c a after hitem hend hmark => cases hfault
  | case4 c a after hitem hend ts hmark hprogress later ih =>
      obtain ⟨joined, hcomma⟩ := afterMarks?_single.1 hmark
      have hafter : after.leftOver = none :=
        (list_leads item ⟨ts, after.leftOver⟩).leftOver_eq_none hleft
      have ha := h.sound hitem hafter (hP a List.mem_cons_self)
      rw [hcomma] at ha
      exact .more ha (ih hfault hleft fun b hb => hP b (List.mem_cons_of_mem a hb))
  | case5 c a after hitem hend ts hmark hprogress =>
      obtain ⟨joined, hcomma⟩ := afterMarks?_single.1 hmark
      have ha := h.sound hitem hleft (hP a (List.mem_singleton_self a))
      -- The item and the comma were tokens, so the reader stopped at the end.
      have hlength : ts.length < c.rest.length := by
        have hle := (Forward.leads hitem).rest.length_le
        rw [hcomma, List.length_cons] at hle
        omega
      have hts : ts = [] := by
        rcases ts with _ | ⟨t, ts⟩
        · rfl
        · exact absurd ⟨hlength, rfl⟩ hprogress
      rw [hcomma, hts] at ha
      exact .closed ha

/-- **What is written as a list is read as one.** -/
theorem ReadsItems.list_complete (h : ReadsItems item P R) {ts : List TokenTree} {as : List α}
    (hlisted : Listed R ts as) :
    list item ⟨ts, none⟩ = (⟨as, none⟩, ⟨[], none⟩) ∧ ∀ a ∈ as, P a := by
  induction hlisted with
  | @last ts a ha =>
      obtain ⟨hitem, hPa⟩ := h.complete ha (.inl rfl)
      refine ⟨?_, by simpa using hPa⟩
      rw [list, hitem]
      rfl
  | @closed ts a joined ha =>
      obtain ⟨hitem, hPa⟩ := h.complete ha (.inr ⟨joined, [], rfl⟩)
      refine ⟨?_, by simpa using hPa⟩
      rw [list, hitem]
      simp [afterMarks?]
  | @more ts a joined rest as ha hmore ih =>
      obtain ⟨hitem, hPa⟩ := h.complete ha (.inr ⟨joined, rest, rfl⟩)
      refine ⟨?_, by simpa using ⟨hPa, ih.2⟩⟩
      have hprogress : rest.length < ts.length := (Forward.leads hitem).rest.length_le
      have hrest : rest.isEmpty = false := List.isEmpty_eq_false_iff.2 (h.ne_nil hmore)
      rw [list, hitem]
      simp [afterMarks?, ih.1, hprogress, hrest]

/-! ### Items by their keys -/

/-- What is read of an item is its key and then what follows the key. -/
theorem keyed_eq_ok {item : Option String → ItemReader α} {c d : Cursor} {a : α}
    (h : (ofCode CodeReader.key >>= item) c = .ok (a, d)) :
    ∃ key e, CodeReader.key c = .ok (key, e) ∧ item key e = .ok (a, d) := by
  obtain ⟨key, e, hkey, hitem⟩ := bind_eq_ok_iff.1 h
  refine ⟨key, e, ?_, hitem⟩
  rw [ofCode] at hkey
  cases hread : CodeReader.key c with
  | error f => rw [hread] at hkey; cases hkey
  | ok read => rw [hread] at hkey; cases hkey; rfl

/-- A word in front of anything but `::` is a key. -/
theorem keyed_word {item : Option String → ItemReader α} {w : String} {ts : List TokenTree}
    (h : afterMarks? [':', ':'] ts = none) :
    (ofCode CodeReader.key >>= item) ⟨.word w :: ts, none⟩ = item (some w) ⟨ts, none⟩ := by
  have hkey : CodeReader.key ⟨.word w :: ts, none⟩ = .ok (some w, ⟨ts, none⟩) :=
    CodeReader.key_eq_ok_iff.2 ⟨rfl, rfl, h⟩
  change Except.bind (ofCode CodeReader.key ⟨.word w :: ts, none⟩) _ = _
  rw [ofCode, hkey]
  rfl

/-- No operator `::` stands at the end of an item. -/
theorem EndsItem.afterMarks? {ts : List TokenTree} (h : EndsItem ts) :
    afterMarks? [':', ':'] ts = none := by
  rcases h with rfl | ⟨joined, more, rfl⟩ <;> rfl

section

variable {r : ItemReader β} {R : Writing β} (hr : Reads r R.assigned) {f : β → α} {w : String}
include hr

/-- A value that is read behind a key is written there. -/
theorem assigned_sound {c e d : Cursor} {a : α} (hkey : CodeReader.key c = .ok (some w, e))
    (h : (r >>= fun b => pure (f b)) e = .ok (a, d)) (hd : d.leftOver = none) :
    ∃ ts b, c.rest = .word w :: ts ∧ R.assigned ts b d.rest ∧ f b = a := by
  obtain ⟨hc, -, -⟩ := CodeReader.key_eq_ok_iff.1 hkey
  obtain ⟨b, e', hb, h⟩ := bind_eq_ok_iff.1 h
  cases h
  obtain ⟨rest, leftOver⟩ := d
  cases hd
  exact ⟨e.rest, b, hc, (hr.1 hb).2, rfl⟩

/-- A value that is written behind a key is read there. -/
theorem assigned_complete {item : Option String → ItemReader α}
    (hitem : item (some w) = r >>= fun b => pure (f b)) {ts rest : List TokenTree} {b : β}
    (h : R.assigned ts b rest) :
    (ofCode CodeReader.key >>= item) ⟨.word w :: ts, none⟩ = .ok (f b, ⟨rest, none⟩) := by
  have hts : afterMarks? [':', ':'] ts = none := by
    obtain ⟨joined, more, rfl, -⟩ := h
    rfl
  rw [keyed_word hts, hitem]
  exact bind_eq_ok_iff.2 ⟨b, ⟨rest, none⟩, hr.2 ⟨rfl, h⟩, rfl⟩

end

/-- **Items of fields are read as they are written.** -/
theorem readsItems_field : ReadsItems FieldItem.read (fun _ => True) FieldItem.Written where
  sound {c d a} h hd _ := by
    obtain ⟨key, e, hkey, hitem⟩ := keyed_eq_ok h
    unfold FieldItem.read at hitem
    split at hitem
    · obtain ⟨hc, -, -⟩ := CodeReader.key_eq_ok_iff.1 hkey
      cases hitem
      exact hc ▸ .skip
    · obtain ⟨hc, -, -⟩ := CodeReader.key_eq_ok_iff.1 hkey
      cases hitem
      exact hc ▸ .readonly
    · obtain ⟨ts, l, hc, hl, rfl⟩ :=
        assigned_sound (reads_assigned CodeReader.reads_stringLiteral) hkey hitem hd
      exact hc ▸ .rename hl
    · obtain ⟨ts, v, hc, hv, rfl⟩ := assigned_sound reads_assignedAccessibility hkey hitem hd
      exact hc ▸ .visibility hv
    · cases hitem
  complete {ts a rest} h hrest := by
    refine ⟨?_, trivial⟩
    cases h with
    | skip => exact keyed_word hrest.afterMarks?
    | readonly => exact keyed_word hrest.afterMarks?
    | rename h =>
        exact assigned_complete (f := fun l => FieldItem.rename l.value)
          (reads_assigned CodeReader.reads_stringLiteral) rfl h
    | visibility h => exact assigned_complete reads_assignedAccessibility rfl h

/-- **Items of properties are read as they are written.** -/
theorem readsItems_property :
    ReadsItems PropertyItem.read (fun _ => True) PropertyItem.Written where
  sound {c d a} h hd _ := by
    obtain ⟨key, e, hkey, hitem⟩ := keyed_eq_ok h
    unfold PropertyItem.read at hitem
    split at hitem
    · obtain ⟨ts, l, hc, hl, rfl⟩ :=
        assigned_sound (reads_assigned CodeReader.reads_stringLiteral) hkey hitem hd
      exact hc ▸ .name hl
    · obtain ⟨ts, t, hc, ht, rfl⟩ :=
        assigned_sound (reads_assigned CodeReader.reads_typeText) hkey hitem hd
      exact hc ▸ .type ht
    · obtain ⟨ts, m, hc, hm, rfl⟩ :=
        assigned_sound (reads_assigned CodeReader.reads_identifier) hkey hitem hd
      exact hc ▸ .get hm
    · obtain ⟨ts, m, hc, hm, rfl⟩ :=
        assigned_sound (reads_assigned CodeReader.reads_identifier) hkey hitem hd
      exact hc ▸ .getMut hm
    · obtain ⟨ts, m, hc, hm, rfl⟩ :=
        assigned_sound (reads_assigned CodeReader.reads_identifier) hkey hitem hd
      exact hc ▸ .set hm
    · obtain ⟨ts, v, hc, hv, rfl⟩ := assigned_sound reads_assignedAccessibility hkey hitem hd
      exact hc ▸ .setVisibility hv
    · cases hitem
  complete {ts a rest} h hrest := by
    refine ⟨?_, trivial⟩
    cases h with
    | name h => exact assigned_complete (reads_assigned CodeReader.reads_stringLiteral) rfl h
    | type h => exact assigned_complete (reads_assigned CodeReader.reads_typeText) rfl h
    | get h => exact assigned_complete (reads_assigned CodeReader.reads_identifier) rfl h
    | getMut h => exact assigned_complete (reads_assigned CodeReader.reads_identifier) rfl h
    | set h => exact assigned_complete (reads_assigned CodeReader.reads_identifier) rfl h
    | setVisibility h => exact assigned_complete reads_assignedAccessibility rfl h

/-- **Properties are read as they are written,** as lists of items between round brackets. -/
theorem readsItems_list :
    ReadsItems PropertyItem.readList (·.fault = none) PropertyItem.ListRead where
  sound {c d l} h hd hl := by
    obtain ⟨key, e, hkey, hitem⟩ := keyed_eq_ok h
    unfold PropertyItem.readList at hitem
    split at hitem
    · obtain ⟨hc, -, -⟩ := CodeReader.key_eq_ok_iff.1 hkey
      unfold nestedList at hitem
      split at hitem
      · rename_i content ts he
        cases hitem
        rw [he] at hc
        exact ⟨hl, content, hc, readsItems_property.list_sound hl hd fun _ _ => trivial⟩
      · cases hitem
    · cases hitem
  complete {ts l rest} h hrest := by
    obtain ⟨hl, content, rfl, hitems⟩ := h
    obtain ⟨items, fault⟩ := l
    cases hl
    refine ⟨?_, rfl⟩
    rw [keyed_word rfl, PropertyItem.readList, nestedList]
    dsimp only
    rw [(readsItems_property.list_complete hitems).1]

end ItemReader

/-! ### Attributes as they are read -/

namespace ItemReader

variable {item : Option String → ItemReader α}

/-- Other attributes are left out. -/
theorem ofAttribute?_eq_none_iff {ts : List TokenTree} :
    ItemList.ofAttribute? item ts = none ↔ ¬ NamesAccess ts := by
  unfold ItemList.ofAttribute? NamesAccess
  split
  · simp
  · simp
  · simp
  · rename_i hword hgroup hmark
    refine iff_of_true rfl ?_
    rintro (rfl | ⟨b, content, more, rfl⟩ | ⟨joined, more, rfl⟩)
    · exact hword rfl
    · exact hgroup _ _ _ rfl
    · exact hmark _ _ rfl

/-- An attribute without a fault has arguments. -/
theorem ofAttribute?_eq_some {ts : List TokenTree} {l : ItemList α}
    (h : ItemList.ofAttribute? item ts = some l) (hl : l.fault = none) :
    ∃ b content behind, ts = .word "access" :: .group b content :: behind ∧
      l = ItemList.ofTokens item content := by
  unfold ItemList.ofAttribute? at h
  split at h
  · cases h
    cases hl
  · cases h
    exact ⟨_, _, _, rfl, rfl⟩
  · cases h
    cases hl
  · cases h

variable [∀ key, Forward (item key)] {P : α → Prop} {R : Writing α}

/-- **Arguments are read as they are written.** -/
theorem ReadsItems.ofTokens_iff (h : ReadsItems item P R) {ts : List TokenTree} {as : List α} :
    (ItemList.ofTokens item ts = ⟨as, none⟩ ∧ ∀ a ∈ as, P a) ↔ ArgumentsWritten R ts as := by
  rw [ArgumentsWritten, ItemList.ofTokens]
  cases ts with
  | nil =>
      have hlist : ¬ Listed R [] as := fun hlisted => h.ne_nil hlisted rfl
      simp only [List.isEmpty_nil, if_true, hlist, or_false, true_and, ItemList.mk.injEq, and_true]
      constructor
      · rintro ⟨rfl, -⟩
        rfl
      · rintro rfl
        exact ⟨rfl, by simp⟩
  | cons t ts =>
      simp only [List.isEmpty_cons, Bool.false_eq_true, if_false, reduceCtorEq, false_and, false_or,
        ItemList.mk.injEq, Option.or_eq_none_iff, Option.map_eq_none_iff]
      constructor
      · rintro ⟨⟨rfl, hfault, hleft⟩, hP⟩
        exact h.list_sound hfault hleft hP
      · intro hlisted
        obtain ⟨hread, hP⟩ := h.list_complete hlisted
        rw [hread]
        exact ⟨⟨rfl, rfl, rfl⟩, hP⟩

/-- **What the attributes of a declaration say is what is written in them.** -/
theorem ReadsItems.attributes_iff (h : ReadsItems item P R) {attributes : List (List TokenTree)}
    {as : List α} :
    ((∀ l ∈ attributes.filterMap (ItemList.ofAttribute? item), l.fault = none) ∧
      (attributes.filterMap (ItemList.ofAttribute? item)).flatMap (·.items) = as ∧
      ∀ a ∈ as, P a) ↔ AttributesWritten R attributes as := by
  induction attributes generalizing as with
  | nil =>
      constructor
      · rintro ⟨-, rfl, -⟩
        exact .nil
      · rintro ⟨⟩
        simp
  | cons ts more ih =>
      constructor
      · rintro ⟨hfault, rfl, hP⟩
        cases hread : ItemList.ofAttribute? item ts with
        | none =>
            rw [List.filterMap_cons_none hread] at hfault hP ⊢
            exact .other (ofAttribute?_eq_none_iff.1 hread) (ih.1 ⟨hfault, rfl, hP⟩)
        | some l =>
            rw [List.filterMap_cons_some hread] at hfault hP ⊢
            rw [List.flatMap_cons] at hP ⊢
            rw [List.forall_mem_cons] at hfault
            rw [List.forall_mem_append] at hP
            obtain ⟨b, content, behind, rfl, rfl⟩ := ofAttribute?_eq_some hread hfault.1
            refine .access (h.ofTokens_iff.1 ⟨?_, hP.1⟩) (ih.1 ⟨hfault.2, rfl, hP.2⟩)
            exact congrArg (ItemList.mk _) hfault.1
      · intro hwritten
        cases hwritten with
        | other hother hmore =>
            rw [List.filterMap_cons_none (ofAttribute?_eq_none_iff.2 hother)]
            exact ih.2 hmore
        | @access b content behind _ items bs hitems hmore =>
            obtain ⟨hread, hPitems⟩ := h.ofTokens_iff.2 hitems
            obtain ⟨hfault, hflat, hP⟩ := ih.2 hmore
            have hsome : ItemList.ofAttribute? item (.word "access" :: .group b content :: behind) =
                some ⟨items, none⟩ := congrArg some hread
            rw [List.filterMap_cons_some hsome, List.forall_mem_cons, List.flatMap_cons, hflat,
              List.forall_mem_append]
            exact ⟨⟨rfl, hfault⟩, rfl, hPitems, hP⟩

end ItemReader

end MemberAccess
