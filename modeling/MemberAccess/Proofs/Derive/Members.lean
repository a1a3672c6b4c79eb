import MemberAccess.Objects.Describe
import MemberAccess.Proofs.Derive.Attributes
import MemberAccess.Proofs.Derive.Evaluation
import MemberAccess.Proofs.Derive.Grammar
import MemberAccess.Proofs.Derive.Written
import MemberAccess.Proofs.Registry.MemberTable

/-!
# The members of derived structs

A struct declares its members by its fields and its attributes. Deriving reads the attributes item
by item and stops at the first fault; what it accepts is told here by what is written, in no order.
Then the names are compared, and a name that occurred before is reported. The code that is generated
evaluates to a description with these members, in which each is found by its name.

## Main definitions

* `FieldsDeclare`: the fields that are members.
* `WrittenType.Spells`: the members that a type spells.

## Main results

* `WrittenType.spelled_eq_ok_iff`: what a type spells is what is read of it.
* `repeatedName?_append_cons`: the first name that occurred before is found.
* `WrittenType.derive_declared_members`: a derived struct has exactly its declared members.
-/

namespace MemberAccess

open Source

/-! ### What is declared -/

/-- **What the attributes of a field say.** -/
def WrittenField.Says (f : WrittenField) (a : FieldAttributes) : Prop :=
  ∃ items, AttributesWritten FieldItem.Written f.attributes items ∧ a.SaidBy items

/-- **The fields that are members:** all that are not left out, in order. -/
inductive FieldsDeclare : List WrittenField → List DerivedField → Prop
  | nil : FieldsDeclare [] []
  | skipped {f a more fields} (h : f.Says a) (hskip : a.skip = true)
      (hmore : FieldsDeclare more fields) : FieldsDeclare (f :: more) fields
  | member {f a more fields} (h : f.Says a) (hskip : a.skip = false)
      (hmore : FieldsDeclare more fields) :
      FieldsDeclare (f :: more)
        ({ ident := f.ident
           type := f.type
           name := a.rename.getD (plainName f.ident)
           accessibility := a.visibility.getD f.visibility.accessibility
           readonly := a.readonly } :: fields)

/-- **The members that a type spells:** it is a struct with named fields and without parameters,
all its attributes say something, and so do those of its fields. -/
structure WrittenType.Spells (w : WrittenType) (fields : List DerivedField)
    (properties : List PropertyDeclaration) : Prop where
  notGeneric : w.isGeneric = false
  named : ∃ written, w.body = .named written ∧ FieldsDeclare written fields
  properties : ∃ lists, AttributesWritten PropertyItem.ListWritten w.attributes lists ∧
    List.Forall₂ (fun items p => PropertyDeclaration.DeclaredBy p items) lists properties

/-- The names of fields and properties, in order. -/
def memberNames (fields : List DerivedField) (properties : List PropertyDeclaration) :
    List String :=
  fields.map (·.name) ++ properties.map (·.name.value)

/-! ### Reading attributes -/

namespace WrittenField

/-- What is read of the attributes of a field is what they say. -/
theorem ofAttributes_eq_ok_iff {f : WrittenField} {a : FieldAttributes} :
    FieldAttributes.ofAttributes f.declaration.attributes = .ok a ↔ f.Says a := by
  rw [FieldAttributes.ofAttributes_eq_ok_iff, Says]
  constructor
  · rintro ⟨hfault, ha⟩
    exact ⟨_, ItemReader.readsItems_field.attributes_iff.1 ⟨hfault, rfl, fun _ _ => trivial⟩, ha⟩
  · rintro ⟨items, hitems, ha⟩
    obtain ⟨hfault, rfl, -⟩ := ItemReader.readsItems_field.attributes_iff.2 hitems
    exact ⟨hfault, ha⟩

end WrittenField

/-- The attributes of each field are read, and it is a member unless it is left out. -/
theorem derivedFields_cons_eq_ok_iff {f : FieldDeclaration} {more : List FieldDeclaration}
    {fields : List DerivedField} :
    derivedFields (f :: more) = .ok fields ↔ ∃ a rest,
      FieldAttributes.ofAttributes f.attributes = .ok a ∧ derivedFields more = .ok rest ∧
        (f.derived? a).toList ++ rest = fields := by
  rw [derivedFields]
  cases FieldAttributes.ofAttributes f.attributes with
  | error e => simp [bind, Except.bind]
  | ok a => cases derivedFields more <;> simp [bind, Except.bind, pure, Except.pure]

/-- **The fields that are members are read.** -/
theorem derivedFields_eq_ok_iff {written : List WrittenField} {fields : List DerivedField} :
    derivedFields (written.map (·.declaration)) = .ok fields ↔ FieldsDeclare written fields := by
  induction written generalizing fields with
  | nil =>
      constructor
      · rintro ⟨⟩
        exact .nil
      · rintro ⟨⟩
        rfl
  | cons f more ih =>
      rw [List.map_cons, derivedFields_cons_eq_ok_iff]
      constructor
      · rintro ⟨a, rest, ha, hmore, rfl⟩
        have hsays := WrittenField.ofAttributes_eq_ok_iff.1 ha
        rw [FieldDeclaration.derived?]
        cases hskip : a.skip with
        | true => exact .skipped hsays hskip (ih.1 hmore)
        | false => exact .member hsays hskip (ih.1 hmore)
      · intro h
        cases h with
        | @skipped _ a _ _ hsays hskip hmore =>
            refine ⟨a, fields, WrittenField.ofAttributes_eq_ok_iff.2 hsays, ih.2 hmore, ?_⟩
            rw [FieldDeclaration.derived?, if_pos hskip]
            rfl
        | @member _ a _ rest hsays hskip hmore =>
            refine ⟨a, rest, WrittenField.ofAttributes_eq_ok_iff.2 hsays, ih.2 hmore, ?_⟩
            rw [FieldDeclaration.derived?, hskip]
            rfl

/-- **The properties that are declared are read.** -/
theorem WrittenType.propertiesOf_eq_ok_iff {w : WrittenType}
    {properties : List PropertyDeclaration} :
    propertiesOf w.declaration.attributes = .ok properties ↔
      ∃ lists, AttributesWritten PropertyItem.ListWritten w.attributes lists ∧
        List.Forall₂ (fun items p => PropertyDeclaration.DeclaredBy p items) lists properties := by
  rw [MemberAccess.propertiesOf_eq_ok_iff]
  simp only [PropertyDeclaration.ofItems_eq_ok_iff, List.forall₂_and_left]
  constructor
  · rintro ⟨hfault, hfaults, hproperties⟩
    have hwritten := ItemReader.readsItems_list.attributes_iff.1 ⟨hfault, rfl, hfaults⟩
    refine ⟨_, hwritten.map (f := (·.items)) fun _ _ _ h => h.2, ?_⟩
    exact List.forall₂_map_left_iff.2 hproperties
  · rintro ⟨lists, hlists, hproperties⟩
    have hwritten : AttributesWritten PropertyItem.ListRead w.attributes _ :=
      hlists.map (f := fun items => ⟨items, none⟩) fun _ _ _ h => ⟨rfl, h⟩
    obtain ⟨hfault, hflat, hfaults⟩ := ItemReader.readsItems_list.attributes_iff.2 hwritten
    have hlists : w.declaration.attributes.flatMap (·.items) = _ := hflat
    rw [hlists]
    exact ⟨hfault, hfaults, List.forall₂_map_left_iff.2 hproperties⟩

/-- A declaration spells members if it is a struct with named fields and without parameters whose
attributes are read without a fault. -/
theorem TypeDeclaration.spelled_eq_ok_iff {d : TypeDeclaration} {fields : List DerivedField}
    {properties : List PropertyDeclaration} :
    d.spelled = .ok (fields, properties) ↔ d.isGeneric = false ∧ ∃ declared,
      d.body = .named declared ∧ derivedFields declared = .ok fields ∧
        propertiesOf d.attributes = .ok properties := by
  rw [spelled]
  cases d.isGeneric with
  | true => simp
  | false =>
      cases d.body with
      | unnamed kind => simp
      | named declared =>
          cases hfields : derivedFields declared <;> cases propertiesOf d.attributes <;>
            simp [hfields, bind, Except.bind, pure, Except.pure]

/-- **What a written type spells is what is read of it.** -/
theorem WrittenType.spelled_eq_ok_iff {w : WrittenType} {fields : List DerivedField}
    {properties : List PropertyDeclaration} :
    w.declaration.spelled = .ok (fields, properties) ↔ w.Spells fields properties := by
  rw [TypeDeclaration.spelled_eq_ok_iff, w.propertiesOf_eq_ok_iff]
  constructor
  · rintro ⟨hgeneric, declared, hbody, hfields, hproperties⟩
    obtain ⟨ident, isGeneric, attributes, written | kind⟩ := w
    · obtain rfl : written.map (·.declaration) = declared := TypeBody.named.inj hbody
      exact ⟨hgeneric, ⟨written, rfl, derivedFields_eq_ok_iff.1 hfields⟩, hproperties⟩
    · cases hbody
  · rintro ⟨hgeneric, ⟨written, hbody, hfields⟩, hproperties⟩
    refine ⟨hgeneric, written.map (·.declaration), ?_, derivedFields_eq_ok_iff.2 hfields,
      hproperties⟩
    exact congrArg WrittenBody.declaration hbody

/-! ### Names -/

/-- No name is repeated if all differ, from each other and from those that were seen. -/
theorem repeatedName?_eq_none_iff {seen names : List String} :
    repeatedName? seen names = none ↔ names.Nodup ∧ ∀ name ∈ names, name ∉ seen := by
  induction names generalizing seen with
  | nil => simp [repeatedName?]
  | cons name more ih =>
      rw [repeatedName?]
      by_cases hname : name ∈ seen
      · simp [hname]
      · rw [if_neg hname, ih, List.nodup_cons, List.forall_mem_cons]
        simp only [List.mem_cons, not_or]
        constructor
        · rintro ⟨hnodup, hmore⟩
          exact ⟨⟨fun hmem => (hmore name hmem).1 rfl, hnodup⟩, hname, fun n hn => (hmore n hn).2⟩
        · rintro ⟨⟨hnotMem, hnodup⟩, -, hmore⟩
          exact ⟨hnodup, fun n hn => ⟨fun heq => hnotMem (heq ▸ hn), hmore n hn⟩⟩

/-- **The first name that occurred before is found.** -/
theorem repeatedName?_append_cons {seen before after : List String} {name : String}
    (hbefore : before.Nodup) (hseen : ∀ n ∈ before, n ∉ seen)
    (hname : name ∈ before ∨ name ∈ seen) :
    repeatedName? seen (before ++ name :: after) = some name := by
  induction before generalizing seen with
  | nil =>
      rw [List.nil_append, repeatedName?, if_pos (hname.resolve_left (List.not_mem_nil))]
  | cons n more ih =>
      rw [List.nodup_cons] at hbefore
      rw [List.forall_mem_cons] at hseen
      rw [List.cons_append, repeatedName?, if_neg hseen.1]
      refine ih hbefore.2 (fun m hm => ?_) ?_
      · rw [List.mem_cons, not_or]
        exact ⟨fun heq => hbefore.1 (heq ▸ hm), hseen.2 m hm⟩
      · rw [List.mem_cons] at hname ⊢
        tauto

/-! ### Deriving -/

namespace WrittenType

variable {w : WrittenType} {path : CratePath} {fields : List DerivedField}
  {properties : List PropertyDeclaration}

/-- A type is accepted if it spells members of different names. -/
theorem derive_eq_ok_iff {s : DerivedStruct} :
    w.declaration.derive (.ok path) = .ok s ↔ ∃ fields properties,
      w.Spells fields properties ∧ (memberNames fields properties).Nodup ∧
        s = ⟨w.ident, path, fields, properties⟩ := by
  rw [TypeDeclaration.derive]
  constructor
  · intro h
    cases hspelled : w.declaration.spelled with
    | error e => rw [hspelled] at h; cases h
    | ok parts =>
        rw [hspelled] at h
        dsimp only at h
        split at h
        · cases h
        · rename_i hnone
          cases h
          exact ⟨parts.1, parts.2, spelled_eq_ok_iff.1 hspelled,
            (repeatedName?_eq_none_iff.1 hnone).1, rfl⟩
  · rintro ⟨fields, properties, hspells, hnodup, rfl⟩
    have hnone : repeatedName? [] (memberNames fields properties) = none :=
      repeatedName?_eq_none_iff.2 ⟨hnodup, fun _ _ => List.not_mem_nil⟩
    rw [spelled_eq_ok_iff.2 hspells]
    dsimp only
    rw [← memberNames, hnone]
    rfl

/-- The first name that occurred before is reported. -/
theorem derive_eq_duplicateName {before after : List String} {name : String}
    (hspells : w.Spells fields properties)
    (hnames : memberNames fields properties = before ++ name :: after) (hbefore : before.Nodup)
    (hname : name ∈ before) :
    w.declaration.derive (.ok path) = .error (.declaration (.duplicateName name)) := by
  have hsome : repeatedName? [] (memberNames fields properties) = some name := by
    rw [hnames]
    exact repeatedName?_append_cons hbefore (fun _ _ => List.not_mem_nil) (.inl hname)
  rw [TypeDeclaration.derive, spelled_eq_ok_iff.2 hspells]
  dsimp only
  rw [← memberNames, hsome]

end WrittenType

/-! ### Names of properties -/

/-- A written name of a property is a literal. -/
theorem PropertyItem.Written.ofText?_text {ts rest : List TokenTree} {item : PropertyItem}
    (h : Written ts item rest) {l : StringLiteral} (hname : item.name? = some l) :
    StringLiteral.ofText? l.text = some l := by
  cases h with
  | name h =>
      obtain rfl := Option.some.inj hname
      obtain ⟨_, _, -, text, -, hread⟩ := h
      rwa [StringLiteral.text_of_ofText? hread]
  | type | get | getMut | set | setVisibility => cases hname

/-- **The names of the properties that a type spells are literals.** -/
theorem WrittenType.Spells.ofText?_name {w : WrittenType} {fields : List DerivedField}
    {properties : List PropertyDeclaration} (h : w.Spells fields properties) :
    ∀ p ∈ properties, StringLiteral.ofText? p.name.text = some p.name := by
  obtain ⟨lists, hlists, hdeclared⟩ := h.properties
  have hnames : ∀ items ∈ lists, ∀ item ∈ items, ∀ l, item.name? = some l →
      StringLiteral.ofText? l.text = some l := by
    refine hlists.forall_mem fun ts items rest hwritten => ?_
    obtain ⟨content, -, hlisted⟩ := hwritten
    exact hlisted.forall_mem fun _ _ _ hitem _ => hitem.ofText?_text
  clear h hlists
  induction hdeclared with
  | nil => exact fun _ hp => absurd hp List.not_mem_nil
  | @cons items p _ _ hdeclared _ ih =>
      obtain ⟨hitems, hmore⟩ := List.forall_mem_cons.1 hnames
      have hmem : p.name ∈ items.filterMap PropertyItem.name? :=
        hdeclared.name ▸ List.mem_singleton_self _
      obtain ⟨item, hitem, hname⟩ := List.mem_filterMap.1 hmem
      exact List.forall_mem_cons.2 ⟨hitems item hitem _ hname, ih hmore⟩

/-! ### The members of a derived struct -/

namespace DerivedStruct

/-- The members of a derived struct bear the names of its fields and properties. -/
theorem names_members (s : DerivedStruct) :
    s.members.map (·.name.value) = memberNames s.fields s.properties := by
  simp [members, memberNames, DerivedField.member, PropertyDeclaration.member,
    StringLiteral.ofValue, Function.comp_def]

/-- What the members of a derived struct are is told by its fields and properties. -/
theorem members_told (s : DerivedStruct) :
    s.members.map (fun m =>
        (m.name.value, m.kind, m.accessibility, m.isTraversable, m.isWritable)) =
      s.fields.map (fun f => (f.name, .field, f.accessibility, true, !f.readonly)) ++
        s.properties.map (fun p =>
          (p.name.value, .property, p.setVisibility, p.getMut.isSome, p.set.isSome)) := by
  simp [members, DerivedField.member, PropertyDeclaration.member, StringLiteral.ofValue,
    DerivedMember.kind, DerivedMember.isTraversable, DerivedMember.isWritable, Function.comp_def]

end DerivedStruct

/-- The members that the code of an accepted type makes bear different names. -/
theorem StructScope.nodup_names {w : WrittenType} {path : CratePath} {s : DerivedStruct}
    (hs : w.declaration.derive (.ok path) = .ok s) {U : Universe} {t : U.Ty}
    (scope : StructScope U t s) : (scope.members.map Member.name).Nodup := by
  obtain ⟨fields, properties, -, hnodup, rfl⟩ := WrittenType.derive_eq_ok_iff.1 hs
  have hlisted := congrArg (List.map Prod.fst) scope.members_listed
  rw [List.map_map, List.map_map] at hlisted
  have hnames : scope.members.map Member.name = memberNames fields properties :=
    hlisted.trans (DerivedStruct.names_members _)
  exact hnames ▸ hnodup

/-- **A derived struct has exactly its declared members.** A type is accepted if and only if it is
a struct with named fields and without parameters, the attributes of all its fields and its own say
something, and the names of the members differ; otherwise the first name that occurred before is
reported. The code of the struct is a frame around the descriptions of its members: of the fields
that are not left out, and then of the properties. It evaluates to a composite with one member for
each of them, in this order, and each name of a member leads to it and to its position. -/
theorem WrittenType.derive_declared_members (w : WrittenType) (path : CratePath) :
    (∀ s, w.declaration.derive (.ok path) = .ok s ↔ ∃ fields properties,
      w.Spells fields properties ∧ (memberNames fields properties).Nodup ∧
        s = ⟨w.ident, path, fields, properties⟩) ∧
    (∀ fields properties before name after, w.Spells fields properties →
      memberNames fields properties = before ++ name :: after → before.Nodup → name ∈ before →
        w.declaration.derive (.ok path) = .error (.declaration (.duplicateName name))) ∧
    (∃ front back, ∀ fields properties,
      (⟨w.ident, path, fields, properties⟩ : DerivedStruct).code =
        front ++ " ".intercalate ((fields.map DerivedField.member ++
          properties.map PropertyDeclaration.member).map fun m => m.code path ++ " ,") ++ back) ∧
    ∀ s, w.declaration.derive (.ok path) = .ok s →
      ∀ (U : Universe) (t : U.Ty) (scope : StructScope U t s),
        scope.Evaluates (fun item => path.render ++ " :: info :: " ++ item) s.code scope.info ∧
        ∃ table, scope.info.composite? = some table ∧
          table.members.map (fun m =>
              (m.name, m.kind, m.accessibility, m.isTraversable, m.isWritable)) =
            s.fields.map (fun f => (f.name, .field, f.accessibility, true, !f.readonly)) ++
              s.properties.map (fun p =>
                (p.name.value, .property, p.setVisibility, p.getMut.isSome, p.set.isSome)) ∧
          ∀ i m, table.members[i]? = some m →
            table.index? m.name = some i ∧ table.find? m.name = some m := by
  refine ⟨fun s => derive_eq_ok_iff, fun fields properties before name after hspells hnames
    hbefore hname => derive_eq_duplicateName hspells hnames hbefore hname,
    ⟨codeFront path w.ident, codeBack, fun _ _ => rfl⟩,
    fun s hs U t scope => ⟨?_, _, rfl, ?_, fun i m hm => ?_⟩⟩
  · obtain ⟨fields, properties, hspells, -, rfl⟩ := derive_eq_ok_iff.1 hs
    exact scope.evaluates_code hspells.ofText?_name
  · exact scope.members_listed.trans s.members_told
  · have hnodup := scope.nodup_names hs
    exact ⟨MemberTable.index?_of_nodup hnodup hm, MemberTable.find?_of_nodup hnodup hm⟩

namespace Counter

/-- Counters hold a number, a count and a step. -/
def layout : Declarations :=
  ⟨"Counter", [⟨[.prim .u64, .prim .u64, .prim .u64], .composite []⟩]⟩

/-- The declaration of counters: a raw field, a field that is left out, a field that is renamed by
the literal `name`, and a property. -/
def written (name : String) : WrittenType where
  ident := "Counter"
  isGeneric := false
  attributes :=
    [[.word "access", .group .round [.word "property", .group .round
      [.word "name", .mark '=' false, .literal "\"Count\"", .mark ',' false,
        .word "ty", .mark '=' false, .word "u64", .mark ',' false,
        .word "get", .mark '=' false, .word "count", .mark ',' false]]]]
  body := .named
    [⟨"r#type", .pub, "u64", []⟩,
      ⟨"cache", .inherited, "u64", [[.word "access", .group .round [.word "skip"]]]⟩,
      ⟨"step", .inherited, "u64", [[.word "access", .group .round
        [.word "rename", .mark '=' false, .literal name, .mark ',' false, .word "readonly"]]]⟩]

/-- What is derived from the declaration if the step has a name of its own. -/
def derived : DerivedStruct where
  ident := "Counter"
  cratePath := ⟨["vc_access"]⟩
  fields := [⟨"r#type", "u64", "type", .isPublic, false⟩, ⟨"step", "u64", "By", .nonPublic, true⟩]
  properties := [⟨⟨"\"Count\"", "Count"⟩, "u64", "count", none, none, .isPublic⟩]

/-- What the code of counters names. The count is kept in the field that is left out. -/
def scope : StructScope layout.universe (.declared 0) derived where
  type _ := .prim .u64
  field f _ o :=
    let row := o.rowOr fun h => absurd h (by decide)
    let place : Place (layout.cells 0) (.prim .u64) :=
      if f.ident = "step" then .tail (.tail .head) else .head
    (row.get place, fun v => .record 0 (row.set place v) o.calls)
  property _ _ := ⟨fun o => (o.rowOr fun h => absurd h (by decide)).get (.tail .head), none, none⟩
  getMut_isSome _ hp := by rw [List.mem_singleton.1 hp]; rfl
  set_isSome _ hp := by rw [List.mem_singleton.1 hp]; rfl

end Counter

/-- Names that differ make members, and a name that occurs twice is reported. -/
theorem derive_counter :
    (Counter.written "\"By\"").declaration.derive (.ok ⟨["vc_access"]⟩) = .ok Counter.derived ∧
      Counter.scope.Evaluates (fun item => ":: vc_access :: info :: " ++ item)
        Counter.derived.code Counter.scope.info ∧
      (∃ table, Counter.scope.info.composite? = some table ∧ table.index? "By" = some 1 ∧
        table.index? "Count" = some 2) ∧
      (Counter.written "\"type\"").declaration.derive (.ok ⟨["vc_access"]⟩) =
        .error (.declaration (.duplicateName "type")) := by
  have hderive : (Counter.written "\"By\"").declaration.derive (.ok ⟨["vc_access"]⟩) =
      .ok Counter.derived := by decide +kernel
  obtain ⟨hevaluates, table, htable, hmembers, hfound⟩ :=
    ((Counter.written "\"By\"").derive_declared_members ⟨["vc_access"]⟩).2.2.2 _ hderive _ _
      Counter.scope
  have hspells : (Counter.written "\"type\"").Spells
      [⟨"r#type", "u64", "type", .isPublic, false⟩, ⟨"step", "u64", "type", .nonPublic, true⟩]
      Counter.derived.properties :=
    WrittenType.spelled_eq_ok_iff.1 (by decide +kernel)
  refine ⟨hderive, hevaluates, ⟨table, htable, ?_, ?_⟩, ?_⟩
  · obtain rfl := Option.some.inj htable
    exact (hfound 1 _ rfl).1
  · obtain rfl := Option.some.inj htable
    exact (hfound 2 _ rfl).1
  · exact ((Counter.written "\"type\"").derive_declared_members ⟨["vc_access"]⟩).2.1 _ _ ["type"]
      "type" ["Count"] hspells rfl (by decide) (by decide)

end MemberAccess
