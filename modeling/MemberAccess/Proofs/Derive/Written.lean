import MemberAccess.Derive.Declaration
import MemberAccess.Proofs.Source.Reading

/-!
# Declarations as they are written

A declaration as it is written keeps the tokens of its attributes, where the declaration that is
read of it keeps their items. Every declaration that is read of a text is one that is written.

## Main definitions

* `WrittenVisibility`, `WrittenField`, `WrittenType`: parts of declarations as they are written.
* `WrittenType.declaration`: the declaration that is read of a type.

## Main results

* `Declared.accessibility_written`: a visibility is read as it is written.
* `TypeDeclaration.exists_written`: every declaration that is read is written.
-/

namespace MemberAccess

open Source

variable {α : Type}

/-! ### Written declarations -/

/-- **A visibility as it is written.** A restriction stands between round brackets. -/
inductive WrittenVisibility where
  | inherited
  | pub
  | restricted (content : List TokenTree) (h : Declared.restricts content = true)

namespace WrittenVisibility

/-- The tokens of a visibility. -/
def tokens : WrittenVisibility → List TokenTree
  | inherited => []
  | pub => [.word "pub"]
  | restricted content _ => [.word "pub", .group .round content]

/-- The accessibility of a visibility: only `pub` without a restriction is public. -/
def accessibility : WrittenVisibility → Accessibility
  | pub => .isPublic
  | inherited | restricted _ _ => .nonPublic

end WrittenVisibility

/-- **A field as it is written.** Of each attribute there is what stands between its square
brackets. -/
structure WrittenField where
  ident : String
  visibility : WrittenVisibility
  type : String
  attributes : List (List TokenTree)

/-- The bodies of declarations as they are written. -/
inductive WrittenBody where
  | named (fields : List WrittenField)
  | unnamed (kind : UnnamedKind)

/-- **A type as it is written.** -/
structure WrittenType where
  ident : String
  isGeneric : Bool
  attributes : List (List TokenTree)
  body : WrittenBody

/-- The declaration of a field: its attributes are read as items. -/
def WrittenField.declaration (f : WrittenField) : FieldDeclaration :=
  ⟨f.ident, f.visibility.accessibility, f.type,
    f.attributes.filterMap (ItemList.ofAttribute? FieldItem.read)⟩

/-- The declaration of a body. -/
def WrittenBody.declaration : WrittenBody → TypeBody
  | named fields => .named (fields.map (·.declaration))
  | unnamed kind => .unnamed kind

/-- **The declaration of a type:** its attributes are read as items, and those of its fields. -/
def WrittenType.declaration (w : WrittenType) : TypeDeclaration :=
  ⟨w.ident, w.isGeneric, w.attributes.filterMap (ItemList.ofAttribute? PropertyItem.readList),
    w.body.declaration⟩

/-! ### What is read is written -/

/-- Values that are read of something are read of a list of it. -/
theorem exists_filterMap_eq {β : Type} {f : β → Option α} {as : List (Option α)}
    (h : ∀ a ∈ as, a = none ∨ ∃ b, a = f b) :
    ∃ bs : List β, as.filterMap id = bs.filterMap f := by
  induction as with
  | nil => exact ⟨[], rfl⟩
  | cons a more ih =>
      rw [List.forall_mem_cons] at h
      obtain ⟨bs, hbs⟩ := ih h.2
      rcases h.1 with rfl | ⟨b, rfl⟩
      · exact ⟨bs, hbs⟩
      · refine ⟨b :: bs, ?_⟩
        rw [List.filterMap_cons, List.filterMap_cons, hbs]
        rfl

namespace Declared

/-- The attributes that are read stand between square brackets. -/
theorem attributes_written {item : Option String → ItemReader α} {c d : Cursor}
    {l : List (ItemList α)} (h : attributes item c = .ok (l, d)) :
    ∃ contents : List (List TokenTree), l = contents.filterMap (ItemList.ofAttribute? item) := by
  obtain ⟨all, e, hall, h⟩ := bind_eq_ok_iff.1 h
  cases h
  refine exists_filterMap_eq fun a ha => ?_
  obtain ⟨c', again, d', hstep⟩ := CodeReader.mem_repeated hall ha
  rw [CodeReader.sees_bind] at hstep
  split at hstep
  · obtain ⟨_, _, -, hstep⟩ := bind_eq_ok_iff.1 hstep
    obtain ⟨content, _, -, hstep⟩ := bind_eq_ok_iff.1 hstep
    cases hstep
    exact .inr ⟨content, rfl⟩
  · cases hstep
    exact .inl rfl

/-- **A visibility is read as it is written.** -/
theorem accessibility_written {c d : Cursor} {a : Accessibility}
    (h : accessibility c = .ok (a, d)) :
    ∃ v : WrittenVisibility, a = v.accessibility ∧ c.rest = v.tokens ++ d.rest := by
  rw [accessibility, bind_eq_ok_iff] at h
  obtain ⟨seen, e, hseen, h⟩ := h
  obtain rfl := CodeReader.seesWord_stays hseen
  split at h
  · obtain ⟨_, e, hword, h⟩ := bind_eq_ok_iff.1 h
    rw [CodeReader.word_read hword]
    rw [CodeReader.ahead_bind] at h
    obtain ⟨ts, leftOver⟩ := e
    dsimp only at h
    revert h
    split
    · rename_i content ts
      split
      · rename_i hrestricts
        intro h
        cases h
        exact ⟨.restricted content hrestricts, rfl, rfl⟩
      · intro h
        cases h
        exact ⟨.pub, rfl, rfl⟩
    · intro h
      cases h
      exact ⟨.pub, rfl, rfl⟩
  · cases h
    exact ⟨.inherited, rfl, rfl⟩

/-- A field that is read is one that can be written. -/
theorem field_written {c d : Cursor} {f : FieldDeclaration} (h : field c = .ok (f, d)) :
    ∃ w : WrittenField, f = w.declaration := by
  obtain ⟨items, e, hitems, h⟩ := bind_eq_ok_iff.1 h
  obtain ⟨contents, rfl⟩ := attributes_written hitems
  obtain ⟨implied, e', himplied, h⟩ := bind_eq_ok_iff.1 h
  obtain ⟨v, rfl, -⟩ := accessibility_written himplied
  have hrest : ∀ {ident : String} {e : Cursor}, (do
      let _ ← CodeReader.mark ":"
      return ⟨ident, v.accessibility, ← CodeReader.typeText,
        contents.filterMap (ItemList.ofAttribute? FieldItem.read)⟩ : CodeReader FieldDeclaration)
        e = .ok (f, d) → ∃ w : WrittenField, f = w.declaration := by
    intro ident e h
    obtain ⟨_, _, -, h⟩ := bind_eq_ok_iff.1 h
    obtain ⟨type, _, -, h⟩ := bind_eq_ok_iff.1 h
    cases h
    exact ⟨⟨ident, v, type, contents⟩, rfl⟩
  obtain ⟨underscore, _, -, h⟩ := bind_eq_ok_iff.1 h
  dsimp only at h
  split at h
  · obtain ⟨ident, _, -, h⟩ := bind_eq_ok_iff.1 h
    exact hrest h
  · obtain ⟨ident, _, -, h⟩ := bind_eq_ok_iff.1 h
    exact hrest h

/-- Fields that are read are fields that can be written. -/
theorem fields_written {c d : Cursor} {fs : List FieldDeclaration}
    (h : fields c = .ok (fs, d)) :
    ∃ written : List WrittenField, fs = written.map (·.declaration) := by
  obtain ⟨all, e, hall, h⟩ := bind_eq_ok_iff.1 h
  cases h
  have hsome : ∀ a ∈ all, a = none ∨ ∃ w : WrittenField, a = some w.declaration := by
    intro a ha
    obtain ⟨c', again, d', hstep⟩ := CodeReader.mem_repeated hall ha
    obtain ⟨_, _, -, hstep⟩ := bind_eq_ok_iff.1 hstep
    split at hstep
    · cases hstep
      exact .inl rfl
    · obtain ⟨f, _, hf, hstep⟩ := bind_eq_ok_iff.1 hstep
      obtain ⟨w, rfl⟩ := field_written hf
      obtain ⟨_, _, -, hstep⟩ := bind_eq_ok_iff.1 hstep
      split at hstep
      · cases hstep
        exact .inr ⟨w, rfl⟩
      · obtain ⟨_, _, -, hstep⟩ := bind_eq_ok_iff.1 hstep
        cases hstep
        exact .inr ⟨w, rfl⟩
  obtain ⟨written, hwritten⟩ := exists_filterMap_eq hsome
  exact ⟨written, hwritten.trans (by simp)⟩

/-- The body of a struct that is read is one that can be written. -/
theorem structBody_written {c d : Cursor} {body : TypeBody} (h : structBody c = .ok (body, d)) :
    ∃ w : WrittenBody, body = w.declaration := by
  rw [structBody, CodeReader.ahead_bind] at h
  dsimp only at h
  split at h
  · cases h
    exact ⟨.unnamed .tuple, rfl⟩
  · obtain ⟨_, _, -, h⟩ := bind_eq_ok_iff.1 h
    split at h
    · cases h
    · generalize c.rest.getLast? = last at h
      revert h
      split
      · intro h
        rw [CodeReader.goTo_bind] at h
        obtain ⟨fs, _, hfs, h⟩ := bind_eq_ok_iff.1 h
        cases h
        obtain ⟨_, _, hfs⟩ := CodeReader.inside_read hfs
        obtain ⟨written, rfl⟩ := fields_written hfs
        exact ⟨.named written, rfl⟩
      · intro h
        cases h
        exact ⟨.unnamed .unit, rfl⟩
      · intro h
        cases h

/-- A type that is read is one that can be written. -/
theorem type_written {c e : Cursor} {d : TypeDeclaration} (h : type c = .ok (d, e)) :
    ∃ w : WrittenType, d = w.declaration := by
  obtain ⟨properties, _, hproperties, h⟩ := bind_eq_ok_iff.1 h
  obtain ⟨contents, rfl⟩ := attributes_written hproperties
  obtain ⟨_, _, -, h⟩ := bind_eq_ok_iff.1 h
  obtain ⟨_, _, -, h⟩ := bind_eq_ok_iff.1 h
  split at h
  · obtain ⟨_, _, -, h⟩ := bind_eq_ok_iff.1 h
    obtain ⟨ident, _, -, h⟩ := bind_eq_ok_iff.1 h
    obtain ⟨generic, _, -, h⟩ := bind_eq_ok_iff.1 h
    obtain ⟨body, _, hbody, h⟩ := bind_eq_ok_iff.1 h
    obtain ⟨written, rfl⟩ := structBody_written hbody
    cases h
    exact ⟨⟨ident, generic, contents, written⟩, rfl⟩
  · have hrest : ∀ {kind : UnnamedKind} {c : Cursor}, (do
        let _ ← CodeReader.word (if kind = .enum then "enum" else "union")
        let ident ← CodeReader.identifier
        let generic ← parameters
        CodeReader.goTo []
        return ⟨ident, generic, contents.filterMap (ItemList.ofAttribute? PropertyItem.readList),
          .unnamed kind⟩ : CodeReader TypeDeclaration) c = .ok (d, e) →
        ∃ w : WrittenType, d = w.declaration := by
      intro kind c h
      obtain ⟨_, _, -, h⟩ := bind_eq_ok_iff.1 h
      obtain ⟨ident, _, -, h⟩ := bind_eq_ok_iff.1 h
      obtain ⟨generic, _, -, h⟩ := bind_eq_ok_iff.1 h
      cases h
      exact ⟨⟨ident, generic, contents, .unnamed kind⟩, rfl⟩
    obtain ⟨_, _, -, h⟩ := bind_eq_ok_iff.1 h
    dsimp only at h
    split at h
    · obtain ⟨kind, _, -, h⟩ := bind_eq_ok_iff.1 h
      exact hrest h
    · obtain ⟨kind, _, -, h⟩ := bind_eq_ok_iff.1 h
      exact hrest h

end Declared

/-- **Every declaration that is read of a text is written.** -/
theorem TypeDeclaration.exists_written {text : String} {d : TypeDeclaration}
    (h : ofCode? text = some d) : ∃ w : WrittenType, d = w.declaration := by
  unfold ofCode? at h
  split at h
  · cases h
  · split at h
    · cases h
    · rename_i hread
      split_ifs at h
      cases h
      exact Declared.type_written hread

end MemberAccess
