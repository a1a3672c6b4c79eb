import Mathlib.Data.List.Forall2
import MemberAccess.Derive.Code
import MemberAccess.Derive.Info
import MemberAccess.Proofs.Source.StringLiteral

/-!
# What derived code evaluates to

The code of a derived struct is compiled where the struct is declared, and evaluates there to a
description. The rules of evaluation are given for texts of code, one construct at a time: closures
on a field and methods of the struct, handles that are built call by call, a member made of its
name, its accessibility and its handles, and the list of the members in its frame. They say what
code means and not how it is written, and share nothing with the functions that write it. That the
written code obeys them, with the description of the struct for its value, is proved.

## Conventions

`item` tells how code names an item of the module of descriptions, and `T` is the text of the type
of a member. Tokens have a space between most of them, as they are written.

## Main definitions

* `StructScope.Gets`, `StructScope.Borrows`, `StructScope.Sets`: the functions that code denotes.
* `StructScope.MakesHandles`, `StructScope.MakesMember`: the handles and the members that it makes.
* `StructScope.Evaluates`: the description that it evaluates to.

## Main results

* `StructScope.makesHandles_field`, `StructScope.makesHandles_property`: the handles of a member are
  made by the code for them.
* `StructScope.evaluates_code`: the code of a struct evaluates to the description of the struct.
-/

namespace MemberAccess

open Source

variable {U : Universe} {t : U.Ty} {s : DerivedStruct}

/-! ### Rules of evaluation -/

/-- **The kind of member that a function makes,** by the name of the function. -/
inductive MemberKind.MadeBy : String → MemberKind → Prop
  | field : MadeBy "field" .field
  | property : MadeBy "property" .property

/-- **The accessibility that code names.** -/
inductive Accessibility.NamedBy (item : String → String) : String → Accessibility → Prop
  | isPublic : NamedBy item (item "Accessibility" ++ " :: Public") .isPublic
  | nonPublic : NamedBy item (item "Accessibility" ++ " :: NonPublic") .nonPublic

namespace StructScope

section

variable (scope : StructScope U t s)

/-- **The getter that code denotes:** a closure that reads a field, or a method. -/
inductive Gets : (T : String) → String → (U.Val t → U.Val (scope.type T)) → Prop
  | field (f : DerivedField) (hf : f ∈ s.fields) :
      Gets f.type ("| o | & o . " ++ f.ident) fun o => (scope.field f hf o).1
  | method (p : PropertyDeclaration) (hp : p ∈ s.properties) :
      Gets p.type ("Self :: " ++ p.get) (scope.property p hp).get

/-- **The mutable borrow that code denotes:** a closure on a field, or a method. -/
inductive Borrows : (T : String) → String →
    (U.Val t → U.Val (scope.type T) × (U.Val (scope.type T) → U.Val t)) → Prop
  | field (f : DerivedField) (hf : f ∈ s.fields) :
      Borrows f.type ("| o | & mut o . " ++ f.ident) (scope.field f hf)
  | method {p : PropertyDeclaration} {hp : p ∈ s.properties} {method : String} {borrow}
      (hmethod : p.getMut = some method) (hborrow : (scope.property p hp).getMut = some borrow) :
      Borrows p.type ("Self :: " ++ method) borrow

/-- **The setter that code denotes:** a closure that assigns a field, or a method. -/
inductive Sets : (T : String) → String → (U.Val t → U.Val (scope.type T) → U.Val t) → Prop
  | field (f : DerivedField) (hf : f ∈ s.fields) :
      Sets f.type ("| o , v | o . " ++ f.ident ++ " = v") fun o v => (scope.field f hf o).2 v
  | method {p : PropertyDeclaration} {hp : p ∈ s.properties} {method : String} {set}
      (hmethod : p.set = some method) (hset : (scope.property p hp).set = some set) :
      Sets p.type ("Self :: " ++ method) set

variable (item : String → String)

/-- **The handles that code makes.** New ones can only read, and each further call adds to them. -/
inductive MakesHandles : (T : String) → String → Handles U t (scope.type T) → Prop
  | new {T code get} (h : scope.Gets T code get) :
      MakesHandles T
        (item "MemberHandles" ++ " :: < Self , " ++ T ++ " > :: new " ++ "(" ++ code ++ ")")
        ⟨get, none, none⟩
  | withGetMut {T made handles code borrow} (hmade : MakesHandles T made handles)
      (h : scope.Borrows T code borrow) :
      MakesHandles T (made ++ " . with_get_mut " ++ "(" ++ code ++ ")")
        { handles with getMut := some borrow }
  | withSet {T made handles code set} (hmade : MakesHandles T made handles)
      (h : scope.Sets T code set) :
      MakesHandles T (made ++ " . with_set " ++ "(" ++ code ++ ")")
        { handles with set := some set }

/-- **The member that code makes** of the string that a literal denotes, an accessibility and
handles. The function that is called tells what backs the member. -/
inductive MakesMember : String → Member U → Prop
  | call {T function kind text literal named accessibility made handles}
      (hkind : MemberKind.MadeBy function kind)
      (hname : StringLiteral.ofText? text = some literal)
      (haccessibility : accessibility.NamedBy item named)
      (hhandles : scope.MakesHandles item T made handles) :
      MakesMember
        (item "MemberInfo" ++ " :: " ++ function ++ " :: < Self , " ++ T ++ " > (" ++ text ++
          " , " ++ named ++ " , " ++ made ++ ")")
        ⟨literal.value, kind, accessibility, ⟨t, scope.type T, handles⟩⟩

/-- **The description that code evaluates to:** the composite of the members that the elements of
its list make, in order. -/
inductive Evaluates : String → TypeInfo U → Prop
  | composite {elements : List String} {ms : List (Member U)}
      (h : List.Forall₂ (scope.MakesMember item) elements ms) :
      Evaluates
        ("impl " ++ item "Typed" ++ " for " ++ s.ident ++
          " \x7b fn type_info () -> & 'static " ++ item "TypeInfo" ++
          " \x7b static CELL : " ++ item "NonGenericTypeInfoCell" ++ " = " ++
          item "NonGenericTypeInfoCell" ++ " :: new () ; CELL . get_or_init (|| \x7b " ++
          item "TypeInfo" ++ " :: composite :: < Self > ([" ++
          " ".intercalate (elements.map (· ++ " ,")) ++ "]) \x7d) \x7d \x7d")
        (.composite t ms)

end

end StructScope

/-! ### Members -/

/-- Of two optional values that are there alike, both are there or neither is. -/
theorem eq_none_or_eq_some {α β : Type} {a : Option α} {b : Option β} (h : b.isSome = a.isSome) :
    a = none ∧ b = none ∨ ∃ x y, a = some x ∧ b = some y := by
  cases a <;> cases b <;> simp_all

/-- A kind of member is made by the function of its name. -/
theorem MemberKind.madeBy_text (k : MemberKind) : MadeBy k.text k := by
  cases k with
  | field => exact .field
  | property => exact .property

/-- An accessibility is named by its variant. -/
theorem Accessibility.namedBy_variant (item : String → String) (a : Accessibility) :
    a.NamedBy item (item "Accessibility" ++ " :: " ++ a.variant) := by
  rw [String.append_assoc]
  cases a with
  | isPublic => exact .isPublic
  | nonPublic => exact .nonPublic

namespace StructScope

variable {scope : StructScope U t s} {item : String → String}

/-- The borrow of a property is added to its handles by the call for it, if it has one. -/
theorem MakesHandles.methodCall_getMut (p : PropertyDeclaration) (hp : p ∈ s.properties)
    {made : String} {get : U.Val t → U.Val (scope.type p.type)}
    (h : scope.MakesHandles item p.type made ⟨get, none, none⟩) :
    scope.MakesHandles item p.type (made ++ methodCall " . with_get_mut " p.getMut)
      ⟨get, (scope.property p hp).getMut, none⟩ := by
  obtain ⟨hmethod, hborrow⟩ | ⟨method, borrow, hmethod, hborrow⟩ :=
    eq_none_or_eq_some (scope.getMut_isSome p hp)
  · rw [hmethod, hborrow, methodCall, String.append_empty]
    exact h
  · have hadded := h.withGetMut (.method hmethod hborrow)
    rw [hmethod, hborrow, methodCall, bracketed]
    simp only [String.append_assoc] at hadded ⊢
    exact hadded

/-- The setter of a property is added to its handles by the call for it, if it has one. -/
theorem MakesHandles.methodCall_set (p : PropertyDeclaration) (hp : p ∈ s.properties)
    {made : String} {get : U.Val t → U.Val (scope.type p.type)} {getMut}
    (h : scope.MakesHandles item p.type made ⟨get, getMut, none⟩) :
    scope.MakesHandles item p.type (made ++ methodCall " . with_set " p.set)
      ⟨get, getMut, (scope.property p hp).set⟩ := by
  obtain ⟨hmethod, hset⟩ | ⟨method, set, hmethod, hset⟩ :=
    eq_none_or_eq_some (scope.set_isSome p hp)
  · rw [hmethod, hset, methodCall, String.append_empty]
    exact h
  · have hadded := h.withSet (.method hmethod hset)
    rw [hmethod, hset, methodCall, bracketed]
    simp only [String.append_assoc] at hadded ⊢
    exact hadded

variable (scope item)

/-- **The handles of a field** are made by the code for them. -/
theorem makesHandles_field (f : DerivedField) (hf : f ∈ s.fields) :
    scope.MakesHandles item f.type
      (item "MemberHandles" ++ " :: < Self , " ++ f.type ++ " > :: new " ++
        (MemberBacking.field f.ident f.readonly).code)
      { get := fun o => (scope.field f hf o).1
        getMut := some (scope.field f hf)
        set := if f.readonly then none else some fun o v => (scope.field f hf o).2 v } := by
  have hborrowed : scope.MakesHandles item f.type _ _ :=
    (MakesHandles.new (.field f hf)).withGetMut (.field f hf)
  have hassigned := hborrowed.withSet (.field f hf)
  rw [MemberBacking.code]
  simp only [bracketed, String.append_assoc] at hborrowed hassigned ⊢
  cases f.readonly with
  | true => exact hborrowed
  | false => exact hassigned

/-- **The handles of a property** are made by the code for them: each method is called for exactly
if the property has it. -/
theorem makesHandles_property (p : PropertyDeclaration) (hp : p ∈ s.properties) :
    scope.MakesHandles item p.type
      (item "MemberHandles" ++ " :: < Self , " ++ p.type ++ " > :: new " ++
        (MemberBacking.methods p.get p.getMut p.set).code)
      (scope.property p hp) := by
  have hread : scope.MakesHandles item p.type _ _ := .new (.method p hp)
  have hmade := (hread.methodCall_getMut p hp).methodCall_set p hp
  rw [MemberBacking.code]
  simp only [bracketed, String.append_assoc] at hmade ⊢
  exact hmade

end StructScope

/-- The description of a listed member makes it, if the code for its handles makes them. -/
theorem StructScope.makesMember_code {scope : StructScope U t s} {path : CratePath}
    {m : DerivedMember} {handles : Handles U t (scope.type m.type)}
    (hname : StringLiteral.ofText? m.name.text = some m.name)
    (hhandles : scope.MakesHandles path.infoItem m.type
      (path.infoItem "MemberHandles" ++ " :: < Self , " ++ m.type ++ " > :: new " ++
        m.backing.code) handles) :
    scope.MakesMember path.infoItem (m.code path)
      ⟨m.name.value, m.kind, m.accessibility, ⟨t, scope.type m.type, handles⟩⟩ := by
  have hmade := MakesMember.call m.kind.madeBy_text hname (m.accessibility.namedBy_variant _)
    hhandles
  -- The equation of the definition would take long to be made.
  delta DerivedMember.code
  simp only [String.append_assoc] at hmade ⊢
  exact hmade

/-! ### Structs -/

/-- What is made of each element of a list is related to the element one by one. -/
theorem forall₂_map_attach {α β γ : Type*} {R : β → γ → Prop} {l : List α} {f : α → β}
    {g : (a : α) → a ∈ l → γ} (h : ∀ a (ha : a ∈ l), R (f a) (g a ha)) :
    List.Forall₂ R (l.map f) (l.attach.map fun a => g a.1 a.2) := by
  rw [← List.attach_map_val (l := l), List.forall₂_map_left_iff, List.forall₂_map_right_iff,
    List.forall₂_same]
  exact fun a _ => h a.1 a.2

namespace StructScope

variable (scope : StructScope U t s)

/-- **The description of each field makes its member.** The literal that is written for the name
denotes it. -/
theorem makesMember_field (f : DerivedField) (hf : f ∈ s.fields) :
    scope.MakesMember s.cratePath.infoItem (f.member.code s.cratePath) (scope.fieldMember f hf) :=
  makesMember_code (m := f.member) (StringLiteral.ofText?_ofValue f.name)
    (scope.makesHandles_field _ f hf)

/-- **The description of each property makes its member,** if its name is a literal. -/
theorem makesMember_property (p : PropertyDeclaration) (hp : p ∈ s.properties)
    (hname : StringLiteral.ofText? p.name.text = some p.name) :
    scope.MakesMember s.cratePath.infoItem (p.member.code s.cratePath)
      (scope.propertyMember p hp) :=
  makesMember_code (m := p.member) hname (scope.makesHandles_property _ p hp)

/-- The descriptions of the listed members make the members, one by one and in the same order. -/
theorem forall₂_makesMember
    (hnames : ∀ p ∈ s.properties, StringLiteral.ofText? p.name.text = some p.name) :
    List.Forall₂ (scope.MakesMember s.cratePath.infoItem)
      (s.members.map (·.code s.cratePath)) scope.members := by
  rw [DerivedStruct.members, members, List.map_append, List.map_map, List.map_map]
  exact List.rel_append (forall₂_map_attach scope.makesMember_field)
    (forall₂_map_attach fun p hp => scope.makesMember_property p hp (hnames p hp))

/-- **The code of a struct evaluates to the description of the struct,** if the names of properties
are literals. -/
theorem evaluates_code
    (hnames : ∀ p ∈ s.properties, StringLiteral.ofText? p.name.text = some p.name) :
    scope.Evaluates s.cratePath.infoItem s.code scope.info := by
  have hcode := Evaluates.composite (scope.forall₂_makesMember hnames)
  rw [List.map_map] at hcode
  exact hcode

end StructScope

end MemberAccess
