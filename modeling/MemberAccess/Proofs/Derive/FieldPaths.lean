import MemberAccess.Derive.Info
import MemberAccess.Proofs.Derive.Members
import MemberAccess.Proofs.Objects.Registry
import MemberAccess.Proofs.Path.Outcome
import MemberAccess.Proofs.Path.Spelling

/-!
# Paths of fields

A member path may be spelled by the names of fields as they stand in the declarations of their
structs. Two readers have to agree on these names: deriving takes the mark off a raw name to make
the name of a member, and so does the splitting of a path into tokens. In between stand the table of
the members, and the options and boxes between a field and the next struct.

The two readers do not agree on what a name is made of. Code is split into words by a later edition
of the character classes than paths are, so a field may have a name that no path can spell.

## Main definitions

* `IsFieldName`: the names that a field may have in code.
* `DerivedType`: a type that is described by the code derived from its declaration.
* `DerivedType.Gives`: the member that is generated for a field.
* `Registry.FieldChain`: fields of derived types, each reached from the one before it.
* `fieldPath`: the path that is spelled by the names of fields.

## Main results

* `DerivedType.finds_of_mem`: each member of a derived type is found under its own name.
* `DerivedType.exists_gives`: each field gives a member, unless it is left out or renamed.
* `DerivedType.Gives.finds`: it is found under the name of the field without its mark.
* `Registry.FieldChain.parse_fieldPath`: the path that fields spell leads to their members.
-/

namespace MemberAccess

open Source Text

variable {U : Universe} {r : Registry U}

/-! ### Names of fields -/

/-- **The names that a field may have in code.** A bare name is a word that is no keyword; a raw one
has a mark in front of it, and may be any word but those that are never raw. -/
inductive IsFieldName : String → Prop
  | bare {name : String} (hword : IsWord name.toList) (hname : name ∉ keywords) : IsFieldName name
  | raw {name : String} (hword : IsWord name.toList) (hname : name ∉ neverRaw) :
      IsFieldName ("r#" ++ name)

/-- A word has no mark to be taken off. -/
theorem plainName_of_isWord {name : String} (h : IsWord name.toList) : plainName name = name := by
  unfold plainName
  split
  · rename_i more hchars
    rw [hchars] at h
    exact absurd (h.2 '#' List.mem_cons_self) (by decide +kernel)
  · rfl

/-- The mark of a raw name is taken off. -/
theorem plainName_raw (name : String) : plainName ("r#" ++ name) = name := by
  have hchars : ("r#" ++ name).toList = 'r' :: '#' :: name.toList := String.toList_append
  unfold plainName
  split
  · rename_i more hmore
    obtain rfl : name.toList = more := by simpa using hchars.symm.trans hmore
    exact String.ofList_toList
  · rename_i hnot
    exact absurd hchars (hnot _)

/-- The name of a field is a text of its name without the mark, if that is an identifier. -/
theorem IsFieldName.writtenAs {ident : String} (h : IsFieldName ident)
    (hident : IsIdentifier (plainName ident).toList) :
    (Token.ident (plainName ident)).WrittenAs ident.toList := by
  cases h with
  | bare hword hname =>
      rw [plainName_of_isWord hword] at hident ⊢
      have hne : ∀ {word : String}, word ∈ keywords → ident ≠ word := fun hmem heq =>
        hname (heq ▸ hmem)
      exact .bare ⟨hident, hne (by decide), hne (by decide), hne (by decide)⟩
  | @raw name _ _ =>
      rw [plainName_raw] at hident ⊢
      have hchars : ("r#" ++ name).toList = 'r' :: '#' :: name.toList := String.toList_append
      exact hchars ▸ .raw hident

/-- The member accesses that fields spell. -/
def fieldAccesses : List String → String
  | [] => ""
  | ident :: more => "." ++ ident ++ fieldAccesses more

/-- **The path that is spelled by the names of fields.** -/
def fieldPath (idents : List String) : String :=
  "|x| x" ++ fieldAccesses idents

/-- The accesses that names spell are a text of the accesses to them without marks. -/
theorem spaced_fieldAccesses {idents : List String}
    (h : ∀ ident ∈ idents, (Token.ident (plainName ident)).WrittenAs ident.toList) :
    Spaced (accessTokens (idents.map plainName)) (fieldAccesses idents).toList := by
  have hnil : ∀ c ∈ ([] : List Char), isBlank c = true := fun _ hc => absurd hc List.not_mem_nil
  induction idents with
  | nil => exact .done hnil
  | cons ident more ih =>
      obtain ⟨hident, hmore⟩ := List.forall_mem_cons.1 h
      have hrest : Spaced (.symbol .dot :: .ident (plainName ident) ::
          accessTokens (more.map plainName))
          ([] ++ ['.'] ++ ([] ++ ident.toList ++ (fieldAccesses more).toList)) :=
        .next hnil (.symbol .dot) (.next hnil hident (ih hmore))
      have hchars : (fieldAccesses (ident :: more)).toList =
          [] ++ ['.'] ++ ([] ++ ident.toList ++ (fieldAccesses more).toList) := by
        simp [fieldAccesses, String.toList_append]
      exact hchars ▸ hrest

/-- **The names of a path of fields are read** from it without their marks. -/
theorem PathSpec.memberNames_fieldPath {idents : List String} (hne : idents ≠ [])
    (h : ∀ ident ∈ idents, (Token.ident (plainName ident)).WrittenAs ident.toList) :
    (PathSpec.text (fieldPath idents)).memberNames = .ok (idents.map plainName) := by
  have hnil : ∀ c ∈ ([] : List Char), isBlank c = true := fun _ hc => absurd hc List.not_mem_nil
  have hblank : ∀ c ∈ [' '], isBlank c = true := List.all_eq_true.1 rfl
  have hx : (Token.ident "x").WrittenAs ['x'] := .bare (by decide +kernel)
  have hspaced : Spaced (chainTokens [.symbol .pipe, .ident "x", .symbol .pipe] "x"
      (idents.map plainName)) ([] ++ ['|'] ++ ([] ++ ['x'] ++ ([] ++ ['|'] ++
        ([' '] ++ ['x'] ++ (fieldAccesses idents).toList)))) :=
    .next hnil (.symbol .pipe) <| .next hnil hx <| .next hnil (.symbol .pipe) <|
    .next hblank hx (spaced_fieldAccesses h)
  have hchars : (fieldPath idents).toList = [] ++ ['|'] ++ ([] ++ ['x'] ++ ([] ++ ['|'] ++
      ([' '] ++ ['x'] ++ (fieldAccesses idents).toList))) := by
    simp [fieldPath, String.toList_append]
  have hhead : [.symbol .pipe, .ident "x", .symbol .pipe] ∈ Lambda.heads "x" := by decide
  have hnames : idents.map plainName ≠ [] := fun hmap => hne (List.map_eq_nil_iff.1 hmap)
  exact memberNames_of_chain hhead (by decide) hnames (hchars ▸ hspaced)

/-! ### Derived types -/

/-- A field that is not renamed is derived under its name without the mark. -/
theorem FieldDeclaration.name_of_derived? {f : FieldDeclaration} {a : FieldAttributes}
    {d : DerivedField} (h : f.derived? a = some d) (hrename : a.rename = none) :
    d.name = plainName f.ident := by
  rw [derived?] at h
  split at h
  · cases h
  · obtain rfl := Option.some.inj h
    rw [hrename]
    rfl

/-- **A type that is described by derived code:** deriving accepts the declaration of the type, and
the registry has the description that the code evaluates to. -/
structure DerivedType (r : Registry U) (t : U.Ty) where
  written : WrittenType
  path : CratePath
  derived : DerivedStruct
  scope : StructScope U t derived
  accepted : written.declaration.derive (.ok path) = .ok derived
  info : r.info t = scope.info

namespace DerivedType

variable {t : U.Ty} (S : DerivedType r t)

/-- **The member that is generated for a field** which is neither left out nor renamed. -/
inductive Gives : WrittenField → Member U → Prop
  | mk {fields : List WrittenField} {f : WrittenField} {a : FieldAttributes} {d : DerivedField}
      (hbody : S.written.body = .named fields) (hmem : f ∈ fields) (hattributes : f.Says a)
      (hrename : a.rename = none) (hderived : f.declaration.derived? a = some d)
      (hd : d ∈ S.derived.fields) : Gives f (S.scope.fieldMember d hd)

variable {S}

/-- A field that is not left out is derived. -/
theorem mem_of_fieldsDeclare {written : List WrittenField} {fields : List DerivedField}
    (h : FieldsDeclare written fields) {f : WrittenField} (hf : f ∈ written)
    {a : FieldAttributes} (hattributes : f.Says a) {d : DerivedField}
    (hd : f.declaration.derived? a = some d) : d ∈ fields := by
  have hunique : ∀ {b : FieldAttributes}, f.Says b → b = a := fun hb =>
    Except.ok.inj ((WrittenField.ofAttributes_eq_ok_iff.2 hb).symm.trans
      (WrittenField.ofAttributes_eq_ok_iff.2 hattributes))
  induction h with
  | nil => exact absurd hf List.not_mem_nil
  | skipped hsaid hskip _ ih =>
      rcases List.mem_cons.1 hf with rfl | hf
      · obtain rfl := hunique hsaid
        rw [FieldDeclaration.derived?, if_pos hskip] at hd
        cases hd
      · exact ih hf
  | member hsaid hskip _ ih =>
      rcases List.mem_cons.1 hf with rfl | hf
      · obtain rfl := hunique hsaid
        rw [FieldDeclaration.derived?, hskip] at hd
        obtain rfl := Option.some.inj hd
        exact List.mem_cons_self
      · exact List.mem_cons_of_mem _ (ih hf)

/-- **Each field gives a member,** unless it is left out or renamed. -/
theorem exists_gives (S : DerivedType r t) {fields : List WrittenField} {f : WrittenField}
    {a : FieldAttributes} (hbody : S.written.body = .named fields) (hf : f ∈ fields)
    (hattributes : f.Says a) (hskip : a.skip = false) (hrename : a.rename = none) :
    ∃ m, S.Gives f m := by
  obtain ⟨derived, properties, hspells, -, hstruct⟩ := WrittenType.derive_eq_ok_iff.1 S.accepted
  obtain ⟨written, hwritten, hdeclare⟩ := hspells.named
  obtain rfl : fields = written := WrittenBody.named.inj (hbody.symm.trans hwritten)
  obtain ⟨d, hderived⟩ : ∃ d, f.declaration.derived? a = some d := by
    rw [FieldDeclaration.derived?, hskip, if_neg Bool.false_ne_true]
    exact ⟨_, rfl⟩
  have hd := mem_of_fieldsDeclare hdeclare hf hattributes hderived
  have hfields : S.derived.fields = derived := congrArg DerivedStruct.fields hstruct
  exact ⟨_, .mk hbody hf hattributes hrename hderived (hfields ▸ hd)⟩

/-- **A member of a derived type is found** under its own name. -/
theorem finds_of_mem (S : DerivedType r t) {m : Member U} (hm : m ∈ S.scope.members) :
    (r.info t).Finds m.name m := by
  have hfound := MemberTable.find?_of_mem (S.scope.nodup_names S.accepted) hm
  have howner : m.owner = t := by
    rcases List.mem_append.1 hm with hfield | hproperty
    · obtain ⟨f, -, rfl⟩ := List.mem_map.1 hfield
      rfl
    · obtain ⟨p, -, rfl⟩ := List.mem_map.1 hproperty
      rfl
  rw [S.info]
  exact ⟨_, rfl, hfound, howner⟩

/-- **The member of a field is found** under the name of the field without its mark. -/
theorem Gives.finds {f : WrittenField} {m : Member U} (h : S.Gives f m) :
    (r.info t).Finds (plainName f.ident) m := by
  obtain @⟨fields, f, a, d, -, -, -, hrename, hderived, hd⟩ := h
  have hname : d.name = plainName f.ident := FieldDeclaration.name_of_derived? hderived hrename
  have hmem : S.scope.fieldMember d hd ∈ S.scope.members :=
    List.mem_append_left _ (List.mem_map.2 ⟨⟨d, hd⟩, List.mem_attach _ _, rfl⟩)
  exact hname ▸ S.finds_of_mem hmem

end DerivedType

/-! ### Chains of fields -/

namespace Registry

/-- **A chain of fields:** each belongs to a derived type, the first to the type `t`, and what it
holds is the type of the next, in any number of wrappers. The members of the fields come with the
descriptions of the types. -/
inductive FieldChain (r : Registry U) : U.Ty → List String → List (TypeInfo U × Member U) → Prop
  | last {t : U.Ty} (S : DerivedType r t) {f : WrittenField} {m : Member U} (hfield : S.Gives f m) :
      FieldChain r t [f.ident] [(r.info t, m)]
  | step {t next : U.Ty} (S : DerivedType r t) {f : WrittenField} {m : Member U}
      {idents : List String} {ms : List (TypeInfo U × Member U)} (hfield : S.Gives f m)
      (hwraps : Relation.ReflTransGen r.Wraps m.value next) (hmore : FieldChain r next idents ms) :
      FieldChain r t (f.ident :: idents) ((r.info t, m) :: ms)

/-- A chain of fields begins at a type that wraps no other. -/
theorem FieldChain.wrapper?_eq_none {t : U.Ty} {idents : List String}
    {ms : List (TypeInfo U × Member U)} (h : r.FieldChain t idents ms) :
    (r.info t).wrapper? = none := by
  cases h with
  | last S _ => exact congrArg TypeInfo.wrapper? S.info
  | step S _ _ _ => exact congrArg TypeInfo.wrapper? S.info

/-- **The names of a chain resolve** to its members. -/
theorem FieldChain.exists_resolves {t : U.Ty} {idents : List String}
    {ms : List (TypeInfo U × Member U)} (h : r.FieldChain t idents ms) :
    ∃ ds, r.Resolves (r.info t) (idents.map plainName) ds ∧
      ds.map (fun d => (d.owner, d.member)) = ms := by
  induction h with
  | last S hfield =>
      obtain ⟨table, htable, hfound, howner⟩ := hfield.finds
      exact ⟨_, .last htable hfound howner, rfl⟩
  | step S hfield hwraps hmore ih =>
      obtain ⟨ds, hds, hms⟩ := ih
      obtain ⟨ws, hcross⟩ := exists_crosses_of_wraps hwraps hmore.wrapper?_eq_none
      exact ⟨_, .cons hfield.finds hcross hds, congrArg (_ :: ·) hms⟩

/-- **Names of fields resolve as they are written.** The path that is spelled by a chain of fields
of derived structs is parsed in the first of them, and its members are those generated for the
fields. The names may be bare or raw; without their marks they must be identifiers of the edition of
the character classes by which paths are split. -/
theorem FieldChain.parse_fieldPath {t : U.Ty} {idents : List String}
    {ms : List (TypeInfo U × Member U)} (h : r.FieldChain t idents ms)
    (hfields : ∀ ident ∈ idents, IsFieldName ident)
    (hidents : ∀ ident ∈ idents, IsIdentifier (plainName ident).toList) :
    ∃ p log, r.parse (r.info t) (.text (fieldPath idents)) = some ⟨.ok p, log⟩ ∧
      p.root = r.info t ∧ p.members.map (fun d => (d.owner, d.member)) = ms := by
  obtain ⟨ds, hds, hms⟩ := h.exists_resolves
  have hne : idents ≠ [] := by
    cases h with
    | last _ _ => exact List.cons_ne_nil _ _
    | step _ _ _ _ => exact List.cons_ne_nil _ _
  have hspelled : (PathSpec.text (fieldPath idents)).memberNames = .ok (idents.map plainName) :=
    PathSpec.memberNames_fieldPath hne fun ident hident =>
      (hfields ident hident).writtenAs (hidents ident hident)
  have hresolve : r.resolve (r.info t) (idents.map plainName) =
      some (.ok ⟨r.info t, ds, hds.ne_nil⟩) := Resolves.resolve_eq rfl hds
  exact ⟨_, _, parse_of_resolve hspelled hresolve, rfl, hms⟩

end Registry

/-! ### Nodes -/

namespace Node

/-- Nodes hold the next node in a box, if there is one, and a number. -/
def layout : Declarations :=
  ⟨"Node", [⟨[.option (.boxed (.declared 0)), .prim .i32], .composite []⟩]⟩

/-- The declaration of nodes whose number is in a field of the name `ident`. -/
def written (ident : String) : WrittenType where
  ident := "Node"
  isGeneric := false
  attributes := []
  body := .named
    [⟨"next", .pub, "Option < Box < Node > >", []⟩, ⟨ident, .inherited, "i32", []⟩]

/-- What is derived from the declaration. -/
def derived (ident : String) : DerivedStruct where
  ident := "Node"
  cratePath := ⟨["vc_access"]⟩
  fields := [⟨"next", "Option < Box < Node > >", "next", .isPublic, false⟩,
    ⟨ident, "i32", plainName ident, .nonPublic, false⟩]
  properties := []

/-- The cell of a field by the text of its type. -/
def cell (type : String) : (t : Ty) × Place (layout.cells 0) t :=
  if type = "i32" then ⟨.prim .i32, .tail .head⟩ else ⟨.option (.boxed (.declared 0)), .head⟩

/-- What the code of nodes names. -/
def scope (ident : String) : StructScope layout.universe (.declared 0) (derived ident) where
  type text := (cell text).1
  field f _ o :=
    let row := o.rowOr fun h => absurd h (by decide)
    (row.get (cell f.type).2, fun v => .record 0 (row.set (cell f.type).2 v) o.calls)
  property _ hp := absurd hp List.not_mem_nil
  getMut_isSome _ hp := absurd hp List.not_mem_nil
  set_isSome _ hp := absurd hp List.not_mem_nil

/-- Nodes with the options and boxes in them. -/
def registry (ident : String) : Registry layout.universe :=
  .ofTypes (fun t => if t = .declared 0 then (scope ident).info else layout.describe t)
    [.declared 0, .option (.boxed (.declared 0)), .boxed (.declared 0)]

/-- Nodes are a derived type, if their declaration is accepted. -/
def derivedType {ident : String}
    (h : (written ident).declaration.derive (.ok ⟨["vc_access"]⟩) = .ok (derived ident)) :
    DerivedType (registry ident) (Ty.declared 0) where
  written := written ident
  path := ⟨["vc_access"]⟩
  derived := derived ident
  scope := scope ident
  accepted := h
  info := rfl

/-- The next node is inside an option and a box. -/
theorem wraps_next (ident : String) :
    Relation.ReflTransGen (registry ident).Wraps (Ty.option (.boxed (.declared 0)))
      (Ty.declared 0) :=
  .head ⟨layout.optionWrapper (.boxed (.declared 0)), rfl, rfl⟩
    (.single ⟨layout.boxWrapper (.declared 0), rfl, rfl⟩)

variable {ident : String}
  (h : (written ident).declaration.derive (.ok ⟨["vc_access"]⟩) = .ok (derived ident))

/-- The field of the next node gives a member, which holds an option. -/
theorem exists_gives_next :
    ∃ m, (derivedType h).Gives ⟨"next", .pub, "Option < Box < Node > >", []⟩ m ∧
      m.value = Ty.option (.boxed (.declared 0)) := by
  have hattributes : WrittenField.Says ⟨"next", .pub, "Option < Box < Node > >", []⟩ .none :=
    WrittenField.ofAttributes_eq_ok_iff.1 rfl
  exact ⟨_, .mk rfl List.mem_cons_self hattributes rfl rfl List.mem_cons_self, rfl⟩

/-- The field of the number gives a member. -/
theorem exists_gives_number : ∃ m, (derivedType h).Gives ⟨ident, .inherited, "i32", []⟩ m := by
  have hattributes : WrittenField.Says ⟨ident, .inherited, "i32", []⟩ .none :=
    WrittenField.ofAttributes_eq_ok_iff.1 rfl
  exact (derivedType h).exists_gives rfl (List.mem_cons_of_mem _ List.mem_cons_self) hattributes rfl
    rfl

end Node

/-- The path to the number of the node after the next leads there, also if the name of the number is
a keyword and so has to be raw. -/
theorem Node.parse_raw_fieldPath :
    ∃ ms, (registry "r#type").FieldChain (Ty.declared 0) ["next", "next", "r#type"] ms ∧
      (∀ ident ∈ ["next", "next", "r#type"], IsFieldName ident) ∧
      (∀ ident ∈ ["next", "next", "r#type"], IsIdentifier (plainName ident).toList) ∧
      ∃ p log, (registry "r#type").parse ((registry "r#type").info (Ty.declared 0))
          (.text (fieldPath ["next", "next", "r#type"])) = some ⟨.ok p, log⟩ ∧
        p.root = (registry "r#type").info (Ty.declared 0) ∧
        p.members.map (fun d => (d.owner, d.member)) = ms := by
  have haccepted : (written "r#type").declaration.derive (.ok ⟨["vc_access"]⟩) =
      .ok (derived "r#type") := by decide +kernel
  obtain ⟨m, hnext, hvalue⟩ := exists_gives_next haccepted
  obtain ⟨n, hnumber⟩ := exists_gives_number haccepted
  have hwraps := hvalue ▸ wraps_next "r#type"
  have hchain := Registry.FieldChain.step _ hnext hwraps
    (.step _ hnext hwraps (.last _ hnumber))
  have hfields : ∀ ident ∈ ["next", "next", "r#type"], IsFieldName ident := by
    have hnext : IsFieldName "next" := .bare (by decide +kernel) (by decide)
    have htype : IsFieldName ("r#" ++ "type") := .raw (by decide +kernel) (by decide)
    exact List.forall_mem_cons.2 ⟨hnext, List.forall_mem_cons.2 ⟨hnext,
      List.forall_mem_singleton.2 htype⟩⟩
  have hidents : ∀ ident ∈ ["next", "next", "r#type"], IsIdentifier (plainName ident).toList := by
    decide +kernel
  exact ⟨_, hchain, hfields, hidents, hchain.parse_fieldPath hfields hidents⟩

/-- A letter that only the later edition of the character classes has makes a name that a field may
have, and a path that is not parsed. -/
theorem Node.late_letter_fieldPath :
    (∃ ms, (registry "\u0c5c").FieldChain (Ty.declared 0) ["\u0c5c"] ms) ∧
      IsFieldName "\u0c5c" ∧
      ¬∃ p log, (registry "\u0c5c").parse ((registry "\u0c5c").info (Ty.declared 0))
        (.text (fieldPath ["\u0c5c"])) = some ⟨.ok p, log⟩ := by
  have haccepted : (written "\u0c5c").declaration.derive (.ok ⟨["vc_access"]⟩) =
      .ok (derived "\u0c5c") := by decide +kernel
  obtain ⟨n, hnumber⟩ := exists_gives_number haccepted
  have hparse : ((registry "\u0c5c").parse ((registry "\u0c5c").info (Ty.declared 0))
      (.text (fieldPath ["\u0c5c"]))).any (fun found => found.value.toOption.isSome) = false := by
    decide +kernel
  refine ⟨⟨_, .last _ hnumber⟩, .bare (by decide +kernel) (by decide +kernel), ?_⟩
  rintro ⟨p, log, hp⟩
  rw [hp] at hparse
  cases hparse

end MemberAccess
