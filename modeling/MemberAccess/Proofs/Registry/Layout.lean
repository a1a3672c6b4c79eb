import Mathlib.Data.List.Forall2
import MemberAccess.Proofs.Registry.Lawful

/-!
# The layout of owners

The components of an owner lie beside each other in cells: what is put into one leaves the others as
they are. Beside the cells an owner may keep a log. Members address the cells, more than one member
may address the same, and a setter may add entries to the log.

## Main definitions

* `Layout`: the cells of the values of a type, and their log.
* `Layout.Addresses`: the handles of a member address a cell.
* `Layout.Reordered`: values that differ in the order of the entries of their logs.
* `Layouts.Diverge`: paths that go through the same cells and then address different ones.

## Main results

* `Layout.read_replace_of_ne`: a cell is not changed by what is put into another.
* `Layout.Acts.reordered`: two actions on different cells can be done in either order.
-/

namespace MemberAccess

variable {U : Universe} {O V W : U.Ty}

/-- **The layout of the values of a type:** cells of components that can be replaced one beside the
other, and a log beside them. -/
structure Layout (U : Universe) (O : U.Ty) where
  Cell : U.Ty → Type
  cell {V : U.Ty} (i : Cell V) : Component U O V
  Entry : Type
  log : U.Val O → List Entry
  putLog : U.Val O → List Entry → U.Val O
  log_putLog (o : U.Val O) (l : List Entry) : log (putLog o l) = l
  putLog_putLog (o : U.Val O) (l l' : List Entry) : putLog (putLog o l) l' = putLog o l'
  putLog_log (o : U.Val O) : putLog o (log o) = o
  replace_putLog {V : U.Ty} (i : Cell V) (o : U.Val O) (l : List Entry) (v : U.Val V) :
    (cell i).replace (putLog o l) v = putLog ((cell i).replace o v) l
  replace_comm {V W : U.Ty} {i : Cell V} {j : Cell W}
    (h : (⟨V, i⟩ : (X : U.Ty) × Cell X) ≠ ⟨W, j⟩) (o : U.Val O) (v : U.Val V) (w : U.Val W) :
    (cell j).replace ((cell i).replace o v) w = (cell i).replace ((cell j).replace o w) v

namespace Layout

variable (L : Layout U O)

/-- The log is not changed by what is put into a cell. -/
@[simp] theorem log_replace (i : L.Cell V) (o : U.Val O) (v : U.Val V) :
    L.log ((L.cell i).replace o v) = L.log o := by
  have hput : (L.cell i).replace o v = L.putLog ((L.cell i).replace o v) (L.log o) := by
    rw [← L.replace_putLog, L.putLog_log]
  rw [hput, L.log_putLog]

/-- A cell is not changed by what is put into the log. -/
@[simp] theorem read_putLog (i : L.Cell V) (o : U.Val O) (l : List L.Entry) :
    (L.cell i).read (L.putLog o l) = (L.cell i).read o := by
  have hput : L.putLog o l = (L.cell i).replace (L.putLog o l) ((L.cell i).read o) := by
    rw [L.replace_putLog, (L.cell i).replace_read]
  rw [hput, (L.cell i).read_replace]

/-- **A cell is not changed by what is put into another.** -/
theorem read_replace_of_ne {i : L.Cell V} {j : L.Cell W}
    (h : (⟨V, i⟩ : (X : U.Ty) × L.Cell X) ≠ ⟨W, j⟩) (o : U.Val O) (v : U.Val V) :
    (L.cell j).read ((L.cell i).replace o v) = (L.cell j).read o := by
  have hput : (L.cell i).replace o v =
      (L.cell j).replace ((L.cell i).replace o v) ((L.cell j).read o) := by
    rw [L.replace_comm h, (L.cell j).replace_read]
  rw [hput, (L.cell j).read_replace]

/-! ### Members and cells -/

/-- **The handles of a member address a cell:** it is what is read and what is borrowed, and the
setter replaces its content, and may add entries to the log that tell of the old content and the
new. -/
structure Addresses (h : Handles U O V) (i : L.Cell V) : Prop where
  get (o : U.Val O) : h.get o = (L.cell i).read o
  getMut {borrow : U.Val O → U.Val V × (U.Val V → U.Val O)} (hb : h.getMut = some borrow)
    (o : U.Val O) : borrow o = ((L.cell i).read o, (L.cell i).replace o)
  set {store : U.Val O → U.Val V → U.Val O} (hs : h.set = some store) :
    ∃ note : U.Val V → U.Val V → List L.Entry, ∀ o v, ∃ l,
      l.Perm (L.log o ++ note ((L.cell i).read o) v) ∧
        store o v = L.putLog ((L.cell i).replace o v) l

/-- **Values that differ in the order of the entries of their logs** at most. -/
def Reordered (x y : U.Val O) : Prop :=
  ∃ l, l.Perm (L.log x) ∧ y = L.putLog x l

/-! ### Actions on cells -/

/-- **An action on a cell:** what becomes of its content, and which entries are added to the log, is
told by the content alone. -/
def Acts (i : L.Cell V) (content : U.Val V → U.Val V) (note : U.Val V → List L.Entry)
    (o o' : U.Val O) : Prop :=
  ∃ l, l.Perm (L.log o ++ note ((L.cell i).read o)) ∧
    o' = L.putLog ((L.cell i).replace o (content ((L.cell i).read o))) l

/-- What is put into a cell, without an entry in the log, is an action on it. -/
theorem acts_replace (i : L.Cell V) (content : U.Val V → U.Val V) (o : U.Val O) :
    L.Acts i content (fun _ => []) o ((L.cell i).replace o (content ((L.cell i).read o))) := by
  refine ⟨L.log o, ?_, ?_⟩
  · rw [List.append_nil]
  · rw [← L.log_replace i o (content ((L.cell i).read o)), L.putLog_log]

variable {L} {i : L.Cell V} {j : L.Cell W} {f : U.Val V → U.Val V} {g : U.Val W → U.Val W}
  {note : U.Val V → List L.Entry} {note' : U.Val W → List L.Entry} {o x y z : U.Val O}

/-- An action on a cell leaves the others as they are. -/
theorem Acts.read_of_ne (h : L.Acts i f note o x)
    (hne : (⟨V, i⟩ : (X : U.Ty) × L.Cell X) ≠ ⟨W, j⟩) :
    (L.cell j).read x = (L.cell j).read o := by
  obtain ⟨l, -, rfl⟩ := h
  rw [L.read_putLog, L.read_replace_of_ne hne]

/-- What two actions on different cells make of a value, one after the other. -/
theorem Acts.exists_both (hx : L.Acts i f note o x) (hz : L.Acts j g note' x z)
    (hne : (⟨V, i⟩ : (X : U.Ty) × L.Cell X) ≠ ⟨W, j⟩) :
    ∃ l, l.Perm (L.log o ++ note ((L.cell i).read o) ++ note' ((L.cell j).read o)) ∧
      z = L.putLog ((L.cell j).replace ((L.cell i).replace o (f ((L.cell i).read o)))
        (g ((L.cell j).read o))) l := by
  have hread := hx.read_of_ne hne
  obtain ⟨k, hk, rfl⟩ := hx
  obtain ⟨l, hl, rfl⟩ := hz
  rw [hread, L.log_putLog] at hl
  refine ⟨l, hl.trans (hk.append_right _), ?_⟩
  rw [hread, L.replace_putLog, L.putLog_putLog]

/-- **Two actions on different cells can be done in either order,** but for the order of the entries
that they add to the log. -/
theorem Acts.reordered (hx : L.Acts i f note o x) (hz : L.Acts j g note' x z)
    {x' z' : U.Val O} (hx' : L.Acts j g note' o x') (hz' : L.Acts i f note x' z')
    (hne : (⟨V, i⟩ : (X : U.Ty) × L.Cell X) ≠ ⟨W, j⟩) : L.Reordered z z' := by
  obtain ⟨l, hl, rfl⟩ := hx.exists_both hz hne
  obtain ⟨l', hl', rfl⟩ := hx'.exists_both hz' hne.symm
  refine ⟨l', ?_, ?_⟩
  · rw [L.log_putLog]
    rw [List.append_assoc] at hl hl'
    exact hl'.trans ((List.perm_append_comm.append_left _).trans hl.symm)
  · rw [L.putLog_putLog, L.replace_comm hne]

end Layout

/-! ### Paths through cells -/

/-- A layout of the values of each type. -/
abbrev Layouts (U : Universe) := (O : U.Ty) → Layout U O

namespace Layouts

/-- Members of one type that address the same cell, whatever their names. -/
inductive SameCell (L : Layouts U) (d e : Descriptor U) : Prop
  | mk {O V : U.Ty} {h k : Handles U O V} {i : (L O).Cell V} (hd : d.member.handles = ⟨O, V, h⟩)
      (he : e.member.handles = ⟨O, V, k⟩) (hi : (L O).Addresses h i) (hk : (L O).Addresses k i)

/-- Members of one type that address different cells. -/
inductive OtherCell (L : Layouts U) (d e : Descriptor U) : Prop
  | mk {O V W : U.Ty} {h : Handles U O V} {k : Handles U O W} {i : (L O).Cell V}
      {j : (L O).Cell W} (hd : d.member.handles = ⟨O, V, h⟩) (he : e.member.handles = ⟨O, W, k⟩)
      (hi : (L O).Addresses h i) (hj : (L O).Addresses k j)
      (hne : (⟨V, i⟩ : (X : U.Ty) × (L O).Cell X) ≠ ⟨W, j⟩)

/-- **Paths that diverge** after the members `front` of the first: up to there they go through the
same cells, and then they address different ones. -/
inductive Diverge (L : Layouts U) (front : List (Descriptor U)) :
    List (Descriptor U) → List (Descriptor U) → Prop
  | mk {front' more more' : List (Descriptor U)} {d e : Descriptor U}
      (hfront : List.Forall₂ L.SameCell front front') (hother : L.OtherCell d e) :
      Diverge L front (front ++ d :: more) (front' ++ e :: more')

end Layouts

end MemberAccess
