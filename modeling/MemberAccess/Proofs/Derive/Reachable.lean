import MemberAccess.Proofs.Derive.FieldPaths

/-!
# Members that a path can name

The names of members are not checked when they are derived: a field may be renamed by any string,
and a property may bear any. Members are looked up by their names as they are, so a path that is
built leads to each of them. A path that is written has identifiers for its names. It leads to the
members with such names, and to no other.

## Main definitions

* `PathSpec.Names`: the specifications whose path is one member.

## Main results

* `DerivedType.names_built`: a built path leads to each member.
* `DerivedType.names_iff_isIdentifier`: a written one does if the name is an identifier.
-/

namespace MemberAccess

open Source Text

variable {U : Universe} {r : Registry U} {t : U.Ty}

/-- **A specification names one member** of a type: it is parsed there, to the member alone. -/
def PathSpec.Names (r : Registry U) (t : U.Ty) (spec : PathSpec) (m : Member U) : Prop :=
  ∃ p log, r.parse (r.info t) spec = some ⟨.ok p, log⟩ ∧ p.root = r.info t ∧
    p.members.map (fun d => (d.owner, d.member)) = [(r.info t, m)]

/-- The name of a member that is found is all that is looked up. -/
theorem PathSpec.names_of_finds {spec : PathSpec} {name : String} {m : Member U}
    (hnames : spec.memberNames = .ok [name]) (hfinds : (r.info t).Finds name m) :
    spec.Names r t m := by
  obtain ⟨table, htable, hfound, howner⟩ := hfinds
  have hresolve : r.resolve (r.info t) [name] =
      some (.ok ⟨r.info t, [⟨m, r.info t, []⟩], List.cons_ne_nil _ _⟩) :=
    Registry.Resolves.resolve_eq rfl (.last htable hfound howner)
  exact ⟨_, _, Registry.parse_of_resolve hnames hresolve, rfl, rfl⟩

/-- A specification that names one member has one name, under which the member is found. -/
theorem PathSpec.Names.exists_name {spec : PathSpec} {m : Member U} (h : spec.Names r t m) :
    ∃ name, spec.memberNames = .ok [name] ∧ (r.info t).Finds name m := by
  obtain ⟨p, log, hparse, -, hmembers⟩ := h
  obtain ⟨names, hnames, -, hresolves⟩ := Registry.resolves_of_parse hparse
  generalize p.members = ds at hmembers hresolves
  -- A resolution of more names has more members.
  cases hresolves with
  | last htable hfound howner =>
      obtain rfl := (Prod.mk.inj (List.cons.inj hmembers).1).2
      exact ⟨_, hnames, _, htable, hfound, howner⟩
  | step _ _ _ _ rest =>
      exact absurd (List.map_eq_nil_iff.1 (List.cons.inj hmembers).2) rest.ne_nil

namespace DerivedType

variable {m : Member U}

/-- **Each member is named by a path that is built,** whatever its name. -/
theorem names_built (S : DerivedType r t) (hm : m ∈ S.scope.members) :
    (PathSpec.built ⟨"x", .member (.parameter "x") m.name⟩).Names r t m :=
  PathSpec.names_of_finds rfl (S.finds_of_mem hm)

/-- A member whose name is an identifier is named by its raw name. -/
theorem names_raw (S : DerivedType r t) (hm : m ∈ S.scope.members)
    (hname : IsIdentifier m.name.toList) :
    (PathSpec.text ("|x| x." ++ ("r#" ++ m.name))).Names r t m := by
  have hwritten : (Token.ident (plainName ("r#" ++ m.name))).WrittenAs ("r#" ++ m.name).toList := by
    have hchars : ("r#" ++ m.name).toList = 'r' :: '#' :: m.name.toList := String.toList_append
    rw [plainName_raw, hchars]
    exact .raw hname
  have hread := PathSpec.memberNames_fieldPath (List.cons_ne_nil _ _)
    (List.forall_mem_singleton.2 hwritten)
  have hpath : fieldPath ["r#" ++ m.name] = "|x| x." ++ ("r#" ++ m.name) := by
    simp [fieldPath, fieldAccesses, ← String.toList_inj]
  rw [List.map_singleton, plainName_raw, hpath] at hread
  exact PathSpec.names_of_finds hread (S.finds_of_mem hm)

/-- **A member that is named by a text** has an identifier for its name. -/
theorem isIdentifier_of_names (S : DerivedType r t) {source : String}
    (h : (PathSpec.text source).Names r t m) :
    IsIdentifier m.name.toList := by
  obtain ⟨name, hnames, table, htable, hfound, -⟩ := h.exists_name
  obtain rfl : m.name = name := by
    rw [S.info] at htable
    obtain rfl := Option.some.inj htable
    exact MemberTable.name_of_find? hfound
  exact PathSpec.isIdentifier_of_memberNames hnames _ List.mem_cons_self

/-- **A derived member can be named by a built path, and by a written one exactly if its name is an
identifier.** The names are those that deriving accepts, of fields, renamed or not, and of
properties; none is refused for its characters. -/
theorem names_iff_isIdentifier (S : DerivedType r t) (hm : m ∈ S.scope.members) :
    (PathSpec.built ⟨"x", .member (.parameter "x") m.name⟩).Names r t m ∧
      ((∃ text, (PathSpec.text ("|x| x." ++ text)).Names r t m) ↔ IsIdentifier m.name.toList) :=
  ⟨S.names_built hm, fun ⟨_, h⟩ => S.isIdentifier_of_names h, fun h => ⟨_, S.names_raw hm h⟩⟩

end DerivedType

/-! ### Labels -/

namespace Label

/-- Labels hold a number. -/
def layout : Declarations :=
  ⟨"Label", [⟨[.prim .i32], .composite []⟩]⟩

/-- The declaration of labels whose field is renamed by a literal. -/
def written (rename : String) : WrittenType where
  ident := "Label"
  isGeneric := false
  attributes := []
  body := .named [⟨"size", .pub, "i32", [[.word "access", .group .round
    [.word "rename", .mark '=' false, .literal rename]]]⟩]

/-- What is derived from the declaration, if the literal denotes the name. -/
def derived (name : String) : DerivedStruct where
  ident := "Label"
  cratePath := ⟨["vc_access"]⟩
  fields := [⟨"size", "i32", name, .isPublic, false⟩]
  properties := []

/-- What the code of labels names. -/
def scope (name : String) : StructScope layout.universe (.declared 0) (derived name) where
  type _ := .prim .i32
  field _ _ o :=
    let row := o.rowOr fun h => absurd h (by decide)
    (row.get .head, fun v => .record 0 (row.set .head v) o.calls)
  property _ hp := absurd hp List.not_mem_nil
  getMut_isSome _ hp := absurd hp List.not_mem_nil
  set_isSome _ hp := absurd hp List.not_mem_nil

/-- Labels alone. -/
def registry (name : String) : Registry layout.universe :=
  .ofTypes (fun t => if t = .declared 0 then (scope name).info else layout.describe t)
    [.declared 0]

/-- Labels are a derived type, if their declaration is accepted. -/
def derivedType {rename name : String}
    (h : (written rename).declaration.derive (.ok ⟨["vc_access"]⟩) = .ok (derived name)) :
    DerivedType (registry name) (Ty.declared 0) where
  written := written rename
  path := ⟨["vc_access"]⟩
  derived := derived name
  scope := scope name
  accepted := h
  info := rfl

end Label

/-- A field that is renamed to a keyword can be named by a text. -/
theorem Label.names_keyword :
    ∃ (S : DerivedType (registry "as") (Ty.declared 0)) (m : Member layout.universe),
      m ∈ S.scope.members ∧ m.name = "as" ∧
        (PathSpec.built ⟨"x", .member (.parameter "x") m.name⟩).Names (registry "as")
          (Ty.declared 0) m ∧
        ((∃ text, (PathSpec.text ("|x| x." ++ text)).Names (registry "as") (Ty.declared 0) m) ↔
          IsIdentifier m.name.toList) ∧ IsIdentifier m.name.toList := by
  have haccepted : (written "\"as\"").declaration.derive (.ok ⟨["vc_access"]⟩) =
      .ok (derived "as") := by decide +kernel
  have hm : (scope "as").fieldMember _ List.mem_cons_self ∈ (derivedType haccepted).scope.members :=
    List.mem_cons_self
  have hident : IsIdentifier "as".toList := by decide
  obtain ⟨hbuilt, htext⟩ := (derivedType haccepted).names_iff_isIdentifier hm
  exact ⟨_, _, hm, rfl, hbuilt, htext, hident⟩

/-- A field may be renamed to two words, and then no text names it. -/
theorem Label.not_names_words :
    (written "\"a b\"").declaration.derive (.ok ⟨["vc_access"]⟩) = .ok (derived "a b") ∧
      ∃ (S : DerivedType (registry "a b") (Ty.declared 0)) (m : Member layout.universe),
        S.written = written "\"a b\"" ∧ m ∈ S.scope.members ∧ m.name = "a b" ∧
          ∀ text, ¬(PathSpec.text ("|x| x." ++ text)).Names (registry "a b") (Ty.declared 0) m := by
  have haccepted : (written "\"a b\"").declaration.derive (.ok ⟨["vc_access"]⟩) =
      .ok (derived "a b") := by decide +kernel
  have hm : (scope "a b").fieldMember _ List.mem_cons_self ∈
      (derivedType haccepted).scope.members := List.mem_cons_self
  have hident : ¬IsIdentifier "a b".toList := by decide
  exact ⟨haccepted, derivedType haccepted, _, rfl, hm, rfl, fun _ h =>
    hident ((derivedType haccepted).isIdentifier_of_names h)⟩

end MemberAccess
