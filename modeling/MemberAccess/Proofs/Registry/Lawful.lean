import MemberAccess.Proofs.Registry.Crossing

/-!
# Lawful members

The handles of a member are separate functions, and nothing in their types says that they belong
together. They do if there is one component of the owner that is read, borrowed and assigned. A
setter may keep books, such as a log of its calls, in parts of the owner that no member reads; so
it is compared with the replacement of the component on the members of the owner alone. In the same
way, the two functions that open a wrapper belong together if there is one content that they open.

## Main definitions

* `Component`: a part of the values of a type that can be replaced.
* `Registry.SameMembers`: values whose members all read the same.
* `Registry.Lawful`: a well-typed registry whose members each address one component.
* `Registry.LawfulInfos`: a lawful registry whose wrappers are lawful as well.
* `Registry.BooksApart`: the books of setters have no effect on members.
-/

namespace MemberAccess

variable {U : Universe}

/-- **A component** of the values of `O`, of the type `V`: it can be read and replaced, and a
replacement is what is read afterwards, stands alone and changes nothing if it changes no value. -/
structure Component (U : Universe) (O V : U.Ty) where
  read : U.Val O → U.Val V
  replace : U.Val O → U.Val V → U.Val O
  read_replace (o : U.Val O) (v : U.Val V) : read (replace o v) = v
  replace_replace (o : U.Val O) (v w : U.Val V) : replace (replace o v) w = replace o w
  replace_read (o : U.Val O) : replace o (read o) = o

namespace Registry

variable (r : Registry U)

/-- A member that a composite type lists and that belongs to it. -/
structure Owns (t : U.Ty) (m : Member U) : Prop where
  listed : ∃ table, (r.info t).composite? = some table ∧ m ∈ table.members
  owner : m.owner = t

/-- **Values whose members all read the same.** They may differ in what no member reads. -/
def SameMembers (t : U.Ty) (x y : U.Val t) : Prop :=
  ∀ m, r.Owns t m → m.handles.read ⟨t, x⟩ = m.handles.read ⟨t, y⟩

/-- A value has the same members as itself. -/
theorem SameMembers.rfl {r : Registry U} {t : U.Ty} {x : U.Val t} : r.SameMembers t x x :=
  fun _ _ => Eq.refl _

theorem SameMembers.symm {r : Registry U} {t : U.Ty} {x y : U.Val t} (h : r.SameMembers t x y) :
    r.SameMembers t y x :=
  fun m hm => (h m hm).symm

/-- Values that have the same members as a third have the same members. -/
theorem SameMembers.trans {r : Registry U} {t : U.Ty} {x y z : U.Val t}
    (hxy : r.SameMembers t x y) (hyz : r.SameMembers t y z) : r.SameMembers t x z :=
  fun m hm => (hxy m hm).trans (hyz m hm)

/-- **The handles of a member address a component:** it is what is read and what is borrowed, and
the setter replaces it, but for books that it may keep where no member reads. -/
structure Addresses {O V : U.Ty} (h : Handles U O V) (c : Component U O V) : Prop where
  get (o : U.Val O) : h.get o = c.read o
  getMut {borrow : U.Val O → U.Val V × (U.Val V → U.Val O)} (hb : h.getMut = some borrow)
    (o : U.Val O) : borrow o = (c.read o, c.replace o)
  set {store : U.Val O → U.Val V → U.Val O} (hs : h.set = some store) (o : U.Val O)
    (v : U.Val V) : r.SameMembers O (c.replace o v) (store o v)

/-- **A lawful registry** is well typed, and each member of a type addresses one component. -/
structure Lawful : Prop extends r.WellTyped where
  addresses {t : U.Ty} {m : Member U} (hm : r.Owns t m) :
    ∃ c, r.Addresses m.handles.handles c

/-- Values whose members read the same have the same component of each member. -/
theorem SameMembers.component {r : Registry U} {m : Member U} (hm : r.Owns m.owner m)
    {c : Component U m.owner m.value} (hc : r.Addresses m.handles.handles c)
    {x y : U.Val m.owner} (h : r.SameMembers m.owner x y) : c.read x = c.read y := by
  have hread : m.handles.read ⟨m.owner, x⟩ = m.handles.read ⟨m.owner, y⟩ := h m hm
  have hx : m.handles.read ⟨m.owner, x⟩ = some ⟨m.value, m.handles.handles.get x⟩ :=
    m.handles.read_self x
  have hy : m.handles.read ⟨m.owner, y⟩ = some ⟨m.value, m.handles.handles.get y⟩ :=
    m.handles.read_self y
  rw [hx, hy] at hread
  have hget : m.handles.handles.get x = m.handles.handles.get y :=
    eq_of_heq (Dyn.mk.inj (Option.some.inj hread)).2
  exact (hc.get x).symm.trans (hget.trans (hc.get y))

/-- **The books of setters are apart from the members:** what a setter makes of two values whose
members read the same, has members that read the same. -/
def BooksApart : Prop :=
  ∀ m, r.Owns m.owner m → ∀ store, m.handles.handles.set = some store →
    ∀ (x y : U.Val m.owner) (v : U.Val m.value), r.SameMembers m.owner x y →
      r.SameMembers m.owner (store x v) (store y v)

end Registry

/-! ### Lawful wrappers -/

/-- **A lawful wrapper** around the values of `t`: it is open to a borrow where it is open to
reading, with the same content, and what is filled in is what is borrowed afterwards. -/
structure Wrapper.Lawful (w : Wrapper U) (t : U.Ty) : Prop where
  unwrap (x : U.Val t) : w.unwrap ⟨t, x⟩ = (w.unwrapMut ⟨t, x⟩).map Slot.dyn
  restore {x : U.Val t} {s : Slot U (U.Val t)} (hs : w.unwrapMut ⟨t, x⟩ = some s) : s.restore = x
  refill {x : U.Val t} {s : Slot U (U.Val t)} (hs : w.unwrapMut ⟨t, x⟩ = some s)
    (v : U.Val s.ty) : w.unwrapMut ⟨t, s.fill v⟩ = some ⟨s.ty, v, s.fill⟩

/-- **A registry of lawful descriptions:** its members each address one component, and its wrappers
each open one. -/
structure Registry.LawfulInfos (r : Registry U) : Prop extends r.Lawful where
  opens {t : U.Ty} {w : Wrapper U} (hw : (r.info t).wrapper? = some w) : w.Lawful t

end MemberAccess
