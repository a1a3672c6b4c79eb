import MemberAccess.Derive.Struct
import MemberAccess.Registry.TypeInfo

/-!
# Descriptions of derived structs

The code of a derived struct is compiled where the struct is declared. There the texts of its types
stand for types, and its fields and methods can be used. What the code evaluates to is the
description of the struct: a composite of its members, each with the handles that the code gives it.

## Main definitions

* `StructScope`: what the code of a derived struct names.
* `StructScope.fieldMember`, `StructScope.propertyMember`: the members that the code makes.
* `StructScope.info`: the description that the code evaluates to.
-/

namespace MemberAccess

variable {U : Universe} {t : U.Ty} {s : DerivedStruct}

/-- **What the code of a derived struct names** where it is compiled: the types of its members, a
borrow of each field, and the methods of each property, of which only those exist that it has. -/
structure StructScope (U : Universe) (t : U.Ty) (s : DerivedStruct) where
  type : String → U.Ty
  field (f : DerivedField) (hf : f ∈ s.fields) :
    U.Val t → U.Val (type f.type) × (U.Val (type f.type) → U.Val t)
  property (p : PropertyDeclaration) (hp : p ∈ s.properties) : Handles U t (type p.type)
  getMut_isSome (p : PropertyDeclaration) (hp : p ∈ s.properties) :
    (property p hp).getMut.isSome = p.getMut.isSome
  set_isSome (p : PropertyDeclaration) (hp : p ∈ s.properties) :
    (property p hp).set.isSome = p.set.isSome

namespace StructScope

variable (scope : StructScope U t s)

/-- **The member of a field.** It is read and borrowed as the field, and assigned through the borrow
unless the field is read only. -/
def fieldMember (f : DerivedField) (hf : f ∈ s.fields) : Member U where
  name := f.name
  kind := .field
  accessibility := f.accessibility
  handles := {
    owner := t
    value := scope.type f.type
    handles := {
      get := fun o => (scope.field f hf o).1
      getMut := some (scope.field f hf)
      set := if f.readonly then none else some fun o v => (scope.field f hf o).2 v } }

/-- **The member of a property.** Its handles are the methods. -/
def propertyMember (p : PropertyDeclaration) (hp : p ∈ s.properties) : Member U where
  name := p.name.value
  kind := .property
  accessibility := p.setVisibility
  handles := ⟨t, scope.type p.type, scope.property p hp⟩

/-- The members, in the order of the code: the fields, then the properties. -/
def members : List (Member U) :=
  s.fields.attach.map (fun f => scope.fieldMember f.1 f.2) ++
    s.properties.attach.map (fun p => scope.propertyMember p.1 p.2)

/-- **The description of a derived struct.** -/
def info : TypeInfo U :=
  .composite t scope.members

/-- **The members are those that the derived struct lists,** with the same name, kind and
accessibility, and they can be borrowed and assigned alike. -/
theorem members_listed :
    scope.members.map (fun m =>
        (m.name, m.kind, m.accessibility, m.isTraversable, m.isWritable)) =
      s.members.map fun m =>
        (m.name.value, m.kind, m.accessibility, m.isTraversable, m.isWritable) := by
  rw [members, DerivedStruct.members, List.map_append, List.map_append, List.map_map, List.map_map,
    List.map_map, List.map_map]
  congr 1
  · refine Eq.trans (List.map_congr_left fun f _ => ?_) (List.attach_map_val (l := s.fields))
    have hset : (scope.fieldMember f.1 f.2).isWritable = f.1.member.isWritable := by
      simp only [Member.isWritable, ErasedHandles.hasSet, fieldMember, DerivedMember.isWritable,
        DerivedField.member]
      cases f.1.readonly <;> rfl
    simp only [Function.comp_apply, hset]
    rfl
  · refine Eq.trans (List.map_congr_left fun p _ => ?_) (List.attach_map_val (l := s.properties))
    have hborrow : (scope.propertyMember p.1 p.2).isTraversable = p.1.member.isTraversable :=
      scope.getMut_isSome p.1 p.2
    have hset : (scope.propertyMember p.1 p.2).isWritable = p.1.member.isWritable :=
      scope.set_isSome p.1 p.2
    simp only [Function.comp_apply, hborrow, hset]
    rfl

end StructScope

end MemberAccess
