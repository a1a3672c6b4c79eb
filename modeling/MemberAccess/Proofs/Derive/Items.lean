import Mathlib.Data.List.Forall2
import MemberAccess.Proofs.Derive.Grammar
import MemberAccess.Proofs.Source.Depth

/-!
# Items stand alone

The items of attributes stand between commas, and what is read of one does not depend on the others.
So a list is read item by item, and so are the items that are spread over several attributes.

Items are taken as they are written: an item is code that is read as one item if it is read at all.
Code that no reader accepts counts as well, so that a list is refused exactly if one of its items
is. Code without commas outside of groups is an item, but for types, whose commas may stand between
angle brackets.

## Main definitions

* `Source.Writing.IsLocal`, `Source.Writing.IsPlain`: values that do not depend on what follows.
* `IsItem`: code that stands for one item.
* `Parted`: code that consists of items between commas.
* `Spread`: attributes over which items are spread.

## Main results

* `Listed.iff_forall₂`: a list is read item by item.
* `ItemReader.ReadsItems.spread_iff`: so are the items that are spread over attributes.
* `AttributesWritten.exists_spread`: whatever is written in attributes is spread over them.
-/

namespace MemberAccess

open Source ItemReader

variable {α β : Type}

/-! ### Code without commas -/

/-- Code without a comma outside of groups. -/
def NoComma (ts : List TokenTree) : Prop :=
  ∀ joined, .mark ',' joined ∉ ts

/-- Where an item ends, a type may end. -/
theorem ItemReader.EndsItem.endsType {ts : List TokenTree} (h : EndsItem ts) : EndsType ts := by
  rcases h with rfl | ⟨joined, more, rfl⟩
  · exact fun t ht => by cases ht
  · intro t ht
    cases ht
    exact ⟨joined, rfl⟩

/-- Code without commas stays so behind a token that is none. -/
theorem NoComma.cons {t : TokenTree} {ts : List TokenTree} (h : NoComma ts)
    (ht : ∀ joined, .mark ',' joined ≠ t) : NoComma (t :: ts) := fun joined hmem =>
  (List.mem_cons.1 hmem).elim (ht joined) (h joined)

/-- A token that is no comma does not stand behind an item. -/
theorem ItemReader.EndsItem.exists_of_append {t : TokenTree} {ts k us : List TokenTree}
    (hk : EndsItem k) (ht : ∀ joined, .mark ',' joined ≠ t) (h : ts ++ k = t :: us) :
    ∃ us', ts = t :: us' ∧ us = us' ++ k := by
  cases ts with
  | nil =>
      rcases hk with rfl | ⟨joined, more, rfl⟩
      · cases h
      · cases h
        exact absurd rfl (ht joined)
  | cons s ts =>
      cases h
      exact ⟨ts, rfl, rfl⟩

/-- Code is split at its first comma in one way only. -/
theorem NoComma.eq_of_append {ts us k rest : List TokenTree} (hts : NoComma ts) (hus : NoComma us)
    (hk : EndsItem k) (hrest : EndsItem rest) (h : ts ++ k = us ++ rest) : rest = k := by
  induction ts generalizing us with
  | nil =>
      cases us with
      | nil => exact h.symm
      | cons t us =>
          rcases hk with rfl | ⟨joined, more, rfl⟩
          · cases h
          · cases h
            exact absurd List.mem_cons_self (hus joined)
  | cons t ts ih =>
      cases us with
      | nil =>
          rcases hrest with rfl | ⟨joined, more, rfl⟩
          · cases h
          · cases h
            exact absurd List.mem_cons_self (hts joined)
      | cons u us =>
          exact ih (fun joined hmem => hts joined (List.mem_cons_of_mem _ hmem))
            (fun joined hmem => hus joined (List.mem_cons_of_mem _ hmem)) (List.cons_eq_cons.1 h).2

/-! ### Writings that do not depend on what follows -/

namespace Source.Writing

/-- **A way to write values in which one item does not depend on the next:** what is written up to
the end of an item is written alike whatever follows there. -/
def IsLocal (R : Writing α) : Prop :=
  ∀ ts k k' a, EndsItem k → EndsItem k' → R (ts ++ k) a k → R (ts ++ k') a k'

/-- **A plain way to write values:** they have no comma outside of groups, and what follows them
does not matter at all. -/
def IsPlain (R : Writing α) : Prop :=
  ∀ ts a rest, R ts a rest → ∃ w, ts = w ++ rest ∧ NoComma w ∧ ∀ more, R (w ++ more) a more

variable {R : Writing α}

/-- What does not depend on anything that follows does not depend on the next item. -/
theorem IsPlain.isLocal (h : R.IsPlain) : R.IsLocal := by
  intro ts k k' a _ _ ha
  obtain ⟨w, hw, -, hmore⟩ := h _ _ _ ha
  rw [List.append_cancel_right hw]
  exact hmore k'

/-- What stands behind `=` is as plain as the value. -/
theorem IsPlain.assigned (h : R.IsPlain) : R.assigned.IsPlain := by
  rintro _ a rest ⟨joined, ts, rfl, ha⟩
  obtain ⟨w, rfl, hcomma, hmore⟩ := h _ _ _ ha
  refine ⟨.mark '=' joined :: w, rfl, hcomma.cons fun j h => ?_, fun more =>
    ⟨joined, w ++ more, rfl, hmore more⟩⟩
  exact absurd (TokenTree.mark.inj h).1 (by decide)

/-- What stands behind `=` depends on what follows no more than the value. -/
theorem IsLocal.assigned (h : R.IsLocal) : R.assigned.IsLocal := by
  rintro ts k k' a hk hk' ⟨joined, us, hts, ha⟩
  obtain ⟨us, rfl, rfl⟩ := hk.exists_of_append (fun j h => by cases h) hts
  exact ⟨joined, us ++ k', rfl, h _ _ _ _ hk hk' ha⟩

/-- A string literal is one token, and does not depend on what follows it. -/
theorem isPlain_string : string.IsPlain := by
  rintro _ l rest ⟨text, rfl, hl⟩
  exact ⟨[.literal text], rfl, fun j hmem => by simp at hmem, fun more => ⟨text, rfl, hl⟩⟩

/-- An identifier is one token, and does not depend on what follows it. -/
theorem isPlain_identifier : identifier.IsPlain := by
  rintro _ name rest ⟨rfl, hname⟩
  exact ⟨[.word name], rfl, fun j hmem => by simp at hmem, fun more => ⟨rfl, hname⟩⟩

/-- A type is read alike whatever follows it. -/
theorem isLocal_type : type.IsLocal := by
  intro ts k k' text hk hk' h
  have hstop : false = true → ([] : List TokenTree) ≠ [] := fun h => nomatch h
  exact Confined.swap (v := []) hk.endsType hk'.endsType hstop h

end Source.Writing

/-- Accessibilities are string literals, and as plain. -/
theorem Accessibility.isPlain_written : Accessibility.Written.IsPlain := by
  rintro ts v rest ⟨l, hl, hv⟩
  obtain ⟨w, hw, hcomma, hmore⟩ := Writing.isPlain_string _ _ _ hl
  exact ⟨w, hw, hcomma, fun more => ⟨l, hmore more, hv⟩⟩

/-- A key in front of a plain value is plain. -/
theorem exists_plain_of_key {R : Writing β} {S : Writing α} {w : String} {a : α} {b : β}
    (hR : R.IsPlain) (hS : ∀ {ts rest}, R ts b rest → S (.word w :: ts) a rest)
    {ts rest : List TokenTree} (h : R ts b rest) :
    ∃ us, .word w :: ts = us ++ rest ∧ NoComma us ∧ ∀ more, S (us ++ more) a more := by
  obtain ⟨us, rfl, hcomma, hmore⟩ := hR _ _ _ h
  exact ⟨.word w :: us, rfl, hcomma.cons (fun j h => by cases h), fun more => hS (hmore more)⟩

/-- **The items of fields are plain.** -/
theorem FieldItem.isPlain_written : FieldItem.Written.IsPlain := by
  intro ts a rest h
  cases h with
  | skip => exact ⟨[.word "skip"], rfl, fun j hmem => by simp at hmem, fun _ => .skip⟩
  | readonly => exact ⟨[.word "readonly"], rfl, fun j hmem => by simp at hmem, fun _ => .readonly⟩
  | rename h => exact exists_plain_of_key Writing.isPlain_string.assigned .rename h
  | visibility h => exact exists_plain_of_key Accessibility.isPlain_written.assigned .visibility h

/-- The items of properties are plain, but for types. -/
theorem PropertyItem.Written.plain_or_type {ts rest : List TokenTree} {a : PropertyItem}
    (h : Written ts a rest) :
    (∃ w, ts = w ++ rest ∧ NoComma w ∧ ∀ more, Written (w ++ more) a more) ∨
      ∃ us t, ts = .word "ty" :: us ∧ Writing.type.assigned us t rest ∧ a = .type t := by
  cases h with
  | name h => exact .inl (exists_plain_of_key Writing.isPlain_string.assigned .name h)
  | type h => exact .inr ⟨_, _, rfl, h, rfl⟩
  | get h => exact .inl (exists_plain_of_key Writing.isPlain_identifier.assigned .get h)
  | getMut h => exact .inl (exists_plain_of_key Writing.isPlain_identifier.assigned .getMut h)
  | set h => exact .inl (exists_plain_of_key Writing.isPlain_identifier.assigned .set h)
  | setVisibility h =>
      exact .inl (exists_plain_of_key Accessibility.isPlain_written.assigned .setVisibility h)

/-- **An item of a property does not depend on the next.** -/
theorem PropertyItem.isLocal_written : PropertyItem.Written.IsLocal := by
  intro ts k k' a hk hk' h
  rcases h.plain_or_type with ⟨w, hw, -, hmore⟩ | ⟨us, t, hts, ht, rfl⟩
  · rw [List.append_cancel_right hw]
    exact hmore k'
  · obtain ⟨us, rfl, rfl⟩ := hk.exists_of_append (fun j h => by cases h) hts
    exact .type (Writing.isLocal_type.assigned _ _ _ _ hk hk' ht)

/-! ### Code that stands for one item -/

/-- **Code that stands for one item:** what begins with it, and is read as an item up to the end of
one, ends with it. It may be that it is not read as an item at all. -/
structure IsItem (R : Writing α) (ts : List TokenTree) : Prop where
  ne_nil : ts ≠ []
  ends : ∀ k a rest, EndsItem k → EndsItem rest → R (ts ++ k) a rest → rest = k

/-- What is read of code that stands for one item is that item. -/
theorem IsItem.read {R : Writing α} (hR : R.IsLocal) {ts k rest : List TokenTree} {a : α}
    (hts : IsItem R ts) (hk : EndsItem k) (hrest : EndsItem rest) (h : R (ts ++ k) a rest) :
    rest = k ∧ R ts a [] := by
  obtain rfl := hts.ends k a rest hk hrest h
  refine ⟨rfl, ?_⟩
  have ha := hR ts rest [] a hk (.inl rfl) h
  rwa [List.append_nil] at ha

/-- An item is written in front of a comma as it is alone. -/
theorem Source.Writing.IsLocal.append {R : Writing α} (hR : R.IsLocal) {ts k : List TokenTree}
    {a : α} (h : R ts a []) (hk : EndsItem k) : R (ts ++ k) a k :=
  hR ts [] k a (.inl rfl) hk (by rwa [List.append_nil])

/-- Where items are plain, all code without commas stands for one item. -/
theorem isItem_of_noComma {R : Writing α} (hR : R.IsPlain) {ts : List TokenTree} (hts : ts ≠ [])
    (hcomma : NoComma ts) : IsItem R ts where
  ne_nil := hts
  ends k a rest hk hrest h := by
    obtain ⟨w, hw, hwcomma, -⟩ := hR _ _ _ h
    exact hcomma.eq_of_append hwcomma hk hrest hw

/-- Code without commas stands for one item of a property, unless it begins like a type. -/
theorem PropertyItem.isItem_of_noComma {ts : List TokenTree} (hts : ts ≠ []) (hcomma : NoComma ts)
    (hhead : ts.head? ≠ some (.word "ty")) : IsItem Written ts where
  ne_nil := hts
  ends k a rest hk hrest h := by
    rcases h.plain_or_type with ⟨w, hw, hwcomma, -⟩ | ⟨us, t, hus, -, -⟩
    · exact hcomma.eq_of_append hwcomma hk hrest hw
    · obtain ⟨us, rfl, -⟩ := hk.exists_of_append (fun j h => by cases h) hus
      exact absurd rfl hhead

namespace ItemReader

variable {item : Option String → ItemReader α} {P : α → Prop} {R : Writing α}

/-- What is written as an item at one place is not written as another. -/
theorem ReadsItems.unique (h : ReadsItems item P R) {ts rest rest' : List TokenTree} {a b : α}
    (hrest : EndsItem rest) (hrest' : EndsItem rest') (ha : R ts a rest) (hb : R ts b rest') :
    a = b ∧ rest = rest' := by
  have heq := (h.complete ha hrest).1.symm.trans (h.complete hb hrest').1
  cases heq
  exact ⟨rfl, rfl⟩

/-- What is written as an item is not nothing. -/
theorem ReadsItems.item_ne_nil (h : ReadsItems item P R) {ts rest : List TokenTree} {a : α}
    (ha : R ts a rest) (hrest : EndsItem rest) : ts ≠ [] := by
  rintro rfl
  exact nomatch (h.complete ha hrest).1

/-- **Code that is written as an item stands for one.** -/
theorem ReadsItems.isItem (h : ReadsItems item P R) (hR : R.IsLocal) {ts : List TokenTree} {a : α}
    (ha : R ts a []) : IsItem R ts where
  ne_nil := h.item_ne_nil ha (.inl rfl)
  ends _ _ _ hk hrest hb := (h.unique hrest hk hb (hR.append ha hk)).2

end ItemReader

/-! ### Lists of items -/

/-- **Code that consists of items:** there is a comma between two of them, and one may follow the
last. -/
inductive Parted : List (List TokenTree) → List TokenTree → Prop
  | last (ts : List TokenTree) : Parted [ts] ts
  | closed (ts : List TokenTree) (joined : Bool) : Parted [ts] (ts ++ [.mark ',' joined])
  | more {items : List (List TokenTree)} {content : List TokenTree} (ts : List TokenTree)
      (joined : Bool) (hmore : Parted items content) :
      Parted (ts :: items) (ts ++ .mark ',' joined :: content)

/-- Code that consists of items is not empty. -/
theorem Parted.ne_nil {items : List (List TokenTree)} {content : List TokenTree}
    (h : Parted items content) (hitems : ∀ ts ∈ items, ts ≠ []) : content ≠ [] := by
  cases h with
  | last => exact hitems _ (List.mem_singleton_self _)
  | closed => exact List.append_ne_nil_of_right_ne_nil _ (List.cons_ne_nil _ _)
  | more => exact List.append_ne_nil_of_right_ne_nil _ (List.cons_ne_nil _ _)

section

variable {item : Option String → ItemReader α} {P : α → Prop} {R : Writing α}
variable (hread : ReadsItems item P R) (hR : R.IsLocal)
include hread hR

/-- **A list is read item by item,** without a look at what the other items are. -/
theorem Listed.iff_forall₂ [∀ key, Forward (item key)] {items : List (List TokenTree)}
    {content : List TokenTree} {as : List α} (hparted : Parted items content)
    (hitems : ∀ ts ∈ items, IsItem R ts) :
    Listed R content as ↔ List.Forall₂ (fun ts a => R ts a []) items as := by
  have hend : EndsItem [] := .inl rfl
  have hcomma : ∀ joined more, EndsItem (.mark ',' joined :: more) := fun joined more =>
    .inr ⟨joined, more, rfl⟩
  induction hparted generalizing as with
  | last ts =>
      have hts := hitems ts (List.mem_singleton_self ts)
      -- No comma follows an item behind which nothing stands.
      have hlast : ∀ {a joined more}, ¬R ts a (.mark ',' joined :: more) :=
        fun {a joined more} ha =>
          nomatch hts.ends [] a _ hend (hcomma joined more) (by rwa [List.append_nil])
      constructor
      · intro h
        cases h with
        | last ha => exact .cons ha .nil
        | closed ha => exact absurd ha hlast
        | more ha _ => exact absurd ha hlast
      · rintro (_ | ⟨ha, _ | _⟩)
        exact .last ha
  | closed ts joined =>
      have hts := hitems ts (List.mem_singleton_self ts)
      have hmark := hcomma joined []
      constructor
      · intro h
        generalize hcontent : ts ++ [.mark ',' joined] = content at h
        cases h with
        | last ha =>
            subst hcontent
            cases (hts.read hR hmark hend ha).1
        | closed ha =>
            subst hcontent
            exact .cons (hts.read hR hmark (hcomma _ _) ha).2 .nil
        | more ha hmore =>
            subst hcontent
            cases (hts.read hR hmark (hcomma _ _) ha).1
            exact absurd rfl (hread.ne_nil hmore)
      · rintro (_ | ⟨ha, _ | _⟩)
        exact .closed (hR.append ha hmark)
  | @more items content ts joined hmore ih =>
      have hts := hitems ts List.mem_cons_self
      have hmark := hcomma joined content
      have hrest : ∀ us ∈ items, IsItem R us := fun us hus => hitems us (List.mem_cons_of_mem _ hus)
      constructor
      · intro h
        generalize hcontent : ts ++ .mark ',' joined :: content = whole at h
        cases h with
        | last ha =>
            subst hcontent
            cases (hts.read hR hmark hend ha).1
        | closed ha =>
            subst hcontent
            cases (hts.read hR hmark (hcomma _ _) ha).1
            exact absurd rfl (hmore.ne_nil fun us hus => (hrest us hus).ne_nil)
        | more ha hlater =>
            subst hcontent
            obtain ⟨heq, hsingle⟩ := hts.read hR hmark (hcomma _ _) ha
            cases heq
            exact .cons hsingle ((ih hrest).1 hlater)
      · rintro (_ | ⟨ha, hlater⟩)
        exact .more (hR.append ha hmark) ((ih hrest).2 hlater)

/-- **What is written as a list consists of items,** whatever its commas are. -/
theorem Listed.exists_parted [∀ key, Forward (item key)] {content : List TokenTree} {as : List α}
    (h : Listed R content as) :
    ∃ items, Parted items content ∧ (∀ ts ∈ items, IsItem R ts) ∧
      List.Forall₂ (fun ts a => R ts a []) items as := by
  have hend : EndsItem [] := .inl rfl
  have hcomma : ∀ joined more, EndsItem (.mark ',' joined :: more) := fun joined more =>
    .inr ⟨joined, more, rfl⟩
  -- An item is what its reader leaves behind in front of the end.
  have hfront : ∀ {ts rest : List TokenTree} {a : α}, EndsItem rest → R ts a rest →
      ∃ w, ts = w ++ rest ∧ R w a [] ∧ IsItem R w := by
    intro ts rest a hrest ha
    obtain ⟨w, rfl⟩ := (Forward.leads (hread.complete ha hrest).1).rest
    have hw := hR w rest [] a hrest hend ha
    rw [List.append_nil] at hw
    exact ⟨w, rfl, hw, hread.isItem hR hw⟩
  induction h with
  | @last ts a ha => exact ⟨[ts], .last ts, by simpa using hread.isItem hR ha, .cons ha .nil⟩
  | closed ha =>
      obtain ⟨w, rfl, hw, hitem⟩ := hfront (hcomma _ _) ha
      exact ⟨[w], .closed w _, by simpa using hitem, .cons hw .nil⟩
  | more ha _ ih =>
      obtain ⟨w, rfl, hw, hitem⟩ := hfront (hcomma _ _) ha
      obtain ⟨items, hparted, hitems, hforall⟩ := ih
      exact ⟨w :: items, .more w _ hparted, List.forall_mem_cons.2 ⟨hitem, hitems⟩,
        .cons hw hforall⟩

/-! ### Items spread over attributes -/

/-- **Attributes over which items are spread:** the arguments of those that are `access`, in order,
consist of the items. -/
inductive Spread : List (List TokenTree) → List (List TokenTree) → Prop
  | nil : Spread [] []
  | other {items attributes : List (List TokenTree)} {ts : List TokenTree} (h : ¬NamesAccess ts)
      (hmore : Spread items attributes) : Spread items (ts :: attributes)
  | empty {items attributes : List (List TokenTree)} (b : Bracket) (behind : List TokenTree)
      (hmore : Spread items attributes) :
      Spread items ((.word "access" :: .group b [] :: behind) :: attributes)
  | access {front items attributes : List (List TokenTree)} {content : List TokenTree}
      (b : Bracket) (behind : List TokenTree) (hparted : Parted front content)
      (hmore : Spread items attributes) :
      Spread (front ++ items) ((.word "access" :: .group b content :: behind) :: attributes)

/-- **Items that are spread over attributes are read one by one.** -/
theorem AttributesWritten.iff_forall₂ [∀ key, Forward (item key)]
    {items attributes : List (List TokenTree)} {as : List α} (hspread : Spread items attributes)
    (hitems : ∀ ts ∈ items, IsItem R ts) :
    AttributesWritten R attributes as ↔ List.Forall₂ (fun ts a => R ts a []) items as := by
  induction hspread generalizing as with
  | nil =>
      constructor
      · rintro ⟨⟩
        exact .nil
      · rintro ⟨⟩
        exact .nil
  | other hother _ ih =>
      rw [← ih hitems]
      constructor
      · intro h
        cases h with
        | other _ hmore => exact hmore
        | access _ _ => exact absurd (.inr (.inl ⟨_, _, _, rfl⟩)) hother
      · exact .other hother
  | empty b behind _ ih =>
      rw [← ih hitems]
      constructor
      · intro h
        cases h with
        | other hother _ => exact absurd (.inr (.inl ⟨_, _, _, rfl⟩)) hother
        | access hcontent hmore =>
            rcases hcontent with ⟨-, rfl⟩ | hlisted
            · exact hmore
            · exact absurd rfl (hread.ne_nil hlisted)
      · intro h
        have hnone : ArgumentsWritten R [] [] := .inl ⟨rfl, rfl⟩
        exact .access hnone h
  | @access front items attributes content b behind hparted _ ih =>
      rw [List.forall_mem_append] at hitems
      constructor
      · intro h
        cases h with
        | other hother _ => exact absurd (.inr (.inl ⟨_, _, _, rfl⟩)) hother
        | access hcontent hmore =>
            rcases hcontent with ⟨rfl, -⟩ | hlisted
            · exact absurd rfl (hparted.ne_nil fun ts hts => (hitems.1 ts hts).ne_nil)
            · exact List.rel_append ((Listed.iff_forall₂ hread hR hparted hitems.1).1 hlisted)
                ((ih hitems.2).1 hmore)
      · intro h
        have hfront := (List.forall₂_take_append as front items h.flip).flip
        have hlater := (List.forall₂_drop_append as front items h.flip).flip
        rw [← List.take_append_drop front.length as]
        exact .access (.inr ((Listed.iff_forall₂ hread hR hparted hitems.1).2 hfront))
          ((ih hitems.2).2 hlater)

/-- What is read of attributes is what is read of each item. -/
theorem ItemReader.ReadsItems.spread_iff [∀ key, Forward (item key)]
    {items attributes : List (List TokenTree)} {as : List α} (hspread : Spread items attributes)
    (hitems : ∀ ts ∈ items, IsItem R ts) :
    ((∀ l ∈ attributes.filterMap (ItemList.ofAttribute? item), l.fault = none) ∧
      (attributes.filterMap (ItemList.ofAttribute? item)).flatMap (·.items) = as ∧
      ∀ a ∈ as, P a) ↔ List.Forall₂ (fun ts a => R ts a []) items as :=
  hread.attributes_iff.trans (AttributesWritten.iff_forall₂ hread hR hspread hitems)

/-- **What is written in attributes is spread over them.** -/
theorem AttributesWritten.exists_spread [∀ key, Forward (item key)]
    {attributes : List (List TokenTree)} {as : List α} (h : AttributesWritten R attributes as) :
    ∃ items, Spread items attributes ∧ (∀ ts ∈ items, IsItem R ts) ∧
      List.Forall₂ (fun ts a => R ts a []) items as := by
  induction h with
  | nil => exact ⟨[], .nil, by simp, .nil⟩
  | other hother _ ih =>
      obtain ⟨items, hspread, hitems, hforall⟩ := ih
      exact ⟨items, .other hother hspread, hitems, hforall⟩
  | access hcontent _ ih =>
      obtain ⟨items, hspread, hitems, hforall⟩ := ih
      rcases hcontent with ⟨rfl, rfl⟩ | hlisted
      · exact ⟨items, .empty _ _ hspread, hitems, hforall⟩
      · obtain ⟨front, hparted, hfront, hread⟩ := hlisted.exists_parted hread hR
        exact ⟨front ++ items, .access _ _ hparted hspread,
          List.forall_mem_append.2 ⟨hfront, hitems⟩, List.rel_append hread hforall⟩

end

end MemberAccess
