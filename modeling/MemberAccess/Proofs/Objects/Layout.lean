import MemberAccess.Proofs.Objects.Registry
import MemberAccess.Proofs.Registry.Layout

/-!
# The layout of objects

The cells of a declared type that is no wrapper lie beside each other in the rows of its objects,
and the noted calls are their log. A member addresses the cell that backs it, and its setter notes
the number of the cell.

## Main definitions

* `Declarations.rowLayout`: the cells and the log of the objects of a declared type.
* `Declarations.layout`: the layout of the objects of each type.

* `Declarations.BackedBy`: a member that a cell backs.

## Main results

* `Declarations.addresses_rowLayout`: a member addresses the cell that backs it.
* `Declarations.BackedBy.sameCell`, `Declarations.BackedBy.otherCell`: two members address the same
  cell or different ones as the same cell or different ones back them.
-/

namespace MemberAccess

/-- A place holds one of the types of the row. -/
theorem Place.mem {ts : List Ty} {t : Ty} (p : Place ts t) : t ∈ ts := by
  induction p with
  | head => exact List.mem_cons_self
  | tail _ ih => exact List.mem_cons_of_mem _ ih

/-- If the types of a row are different, each has one place. -/
theorem Place.unique {ts : List Ty} {t : Ty} (h : ts.Nodup) (p q : Place ts t) : p = q := by
  induction p with
  | head =>
      cases q with
      | head => rfl
      | tail q => exact absurd q.mem (List.nodup_cons.1 h).1
  | tail p ih =>
      cases q with
      | head => exact absurd p.mem (List.nodup_cons.1 h).1
      | tail q => rw [ih (List.nodup_cons.1 h).2 q]

/-- **Replacing the values at different places** can be done in either order. -/
theorem Row.set_comm {D : Declarations} {ts : List Ty} {s t : Ty} {p : Place ts s} {q : Place ts t}
    (h : (⟨s, p⟩ : (X : Ty) × Place ts X) ≠ ⟨t, q⟩) (row : Row D ts) (x : Obj D s) (y : Obj D t) :
    (row.set p x).set q y = (row.set q y).set p x := by
  induction p with
  | head =>
      cases row
      cases q with
      | head => exact absurd rfl h
      | tail q => rfl
  | tail p ih =>
      cases row with
      | cons head tail =>
          cases q with
          | head => rfl
          | tail q =>
              refine congrArg (Row.cons head) (ih (fun heq => h ?_) tail x)
              cases heq
              rfl

/-- The layout of values without cells and without a log. -/
def Layout.none (U : Universe) (O : U.Ty) : Layout U O where
  Cell _ := Empty
  cell i := nomatch i
  Entry := Empty
  log _ := []
  putLog o _ := o
  log_putLog _ l := by
    cases l with
    | nil => rfl
    | cons entry _ => exact nomatch entry
  putLog_putLog _ _ _ := rfl
  putLog_log _ := rfl
  replace_putLog i := nomatch i
  replace_comm {_ _ i} := nomatch i

/-- An object with other noted calls. -/
def Obj.withCalls {D : Declarations} {n : Nat} (calls : List Nat) :
    Obj D (.declared n) → Obj D (.declared n)
  | record n row _ => record n row calls
  | hollow n h _ => hollow n h calls

namespace Declarations

variable (D : Declarations)

/-- **The layout of the objects of a declared type** that is no wrapper. -/
def rowLayout {n : Nat} (hn : D.isWrapper n = false) : Layout D.universe (.declared n) where
  Cell := Place (D.cells n)
  cell place := D.cellComponent hn (fun h => absurd (hn.symm.trans h) Bool.false_ne_true) place
  Entry := Nat
  log := Obj.calls
  putLog o calls := o.withCalls calls
  log_putLog
    | .record _ _ _, _ => rfl
    | .hollow _ _ _, _ => rfl
  putLog_putLog
    | .record _ _ _, _, _ => rfl
    | .hollow _ _ _, _, _ => rfl
  putLog_log
    | .record _ _ _ => rfl
    | .hollow _ _ _ => rfl
  replace_putLog _
    | .record _ _ _, _, _ => rfl
    | .hollow _ h _, _, _ => absurd (hn.symm.trans h) Bool.false_ne_true
  replace_comm h
    | .record _ row calls, x, y => congrArg (Obj.record n · calls) (Row.set_comm h row x y)
    | .hollow _ h _, _, _ => absurd (hn.symm.trans h) Bool.false_ne_true

/-- **The layout of the objects of each type.** Only objects of declared types that are no wrappers
have cells. -/
def layout : Layouts D.universe
  | .declared n => if hn : D.isWrapper n = false then D.rowLayout hn else .none D.universe _
  | t => .none D.universe t

/-- **A member addresses the cell that backs it,** and its setter notes the number of the cell. -/
theorem addresses_rowLayout {n : Nat} (hn : D.isWrapper n = false)
    (spare : D.isWrapper n = true → Row D (D.cells n)) {t : Ty} (cell : Nat)
    (place : Place (D.cells n) t) (hasGetMut hasSet : Bool) :
    (D.rowLayout hn).Addresses (D.handles n spare cell place hasGetMut hasSet) place := by
  obtain rfl : spare = fun h => absurd (hn.symm.trans h) Bool.false_ne_true :=
    funext fun h => absurd (hn.symm.trans h) Bool.false_ne_true
  refine ⟨fun _ => rfl, fun hb o => ?_, fun hs => ⟨fun _ _ => [cell], fun o v => ?_⟩⟩
  · obtain ⟨-, hborrow⟩ := Option.ite_none_right_eq_some.1 hb
    exact congrFun (Option.some.inj hborrow).symm o
  · obtain ⟨-, hstore⟩ := Option.ite_none_right_eq_some.1 hs
    obtain rfl := Option.some.inj hstore
    exact ⟨o.calls ++ [cell], .refl _, rfl⟩

/-- The layout of the objects of a declared type that is no wrapper. -/
theorem layout_declared {n : Nat} (hn : D.isWrapper n = false) :
    D.layout (.declared n) = D.rowLayout hn :=
  dif_pos hn

variable {D} {n : Nat} {s t : Ty} {d e : Descriptor D.universe}

/-- A member that a cell of a declared type backs. -/
def BackedBy (d : Descriptor D.universe) (n : Nat) {t : Ty} (place : Place (D.cells n) t) : Prop :=
  ∃ (spare : _) (cell : Nat) (hasGetMut hasSet : Bool),
    d.member.handles = ⟨.declared n, t, D.handles n spare cell place hasGetMut hasSet⟩

/-- Where the cells are of different types, a member is backed by the cell of its type. -/
theorem backedBy_of_owns {others : List Ty} (hcells : (D.cells n).Nodup)
    (howns : (D.registry others).Owns d.member.owner d.member)
    (howner : d.member.owner = Ty.declared n) (hvalue : d.member.value = t)
    (place : Place (D.cells n) t) : BackedBy d n place := by
  obtain ⟨k, hk, -, s, place', spare, cell, hasGetMut, hasSet, hhandles⟩ := D.owns_registry howns
  obtain rfl := Ty.declared.inj (howner.symm.trans hk)
  obtain rfl : s = t := by rw [← hvalue, Member.value, hhandles]
  obtain rfl := Place.unique hcells place place'
  exact ⟨spare, cell, hasGetMut, hasSet, hhandles⟩

/-- **Members backed by one cell address the same cell.** -/
theorem BackedBy.sameCell (hn : D.isWrapper n = false) {place : Place (D.cells n) t}
    (hd : BackedBy d n place) (he : BackedBy e n place) : D.layout.SameCell d e := by
  obtain ⟨spare, cell, hasGetMut, hasSet, hd⟩ := hd
  obtain ⟨spare', cell', hasGetMut', hasSet', he⟩ := he
  have haddress : ∃ i : (D.layout (.declared n)).Cell t,
      (D.layout (.declared n)).Addresses (D.handles n spare cell place hasGetMut hasSet) i ∧
        (D.layout (.declared n)).Addresses
          (D.handles n spare' cell' place hasGetMut' hasSet') i := by
    rw [D.layout_declared hn]
    exact ⟨place, D.addresses_rowLayout hn _ _ place _ _, D.addresses_rowLayout hn _ _ place _ _⟩
  obtain ⟨i, hi, hi'⟩ := haddress
  exact .mk hd he hi hi'

/-- **Members backed by different cells** address different cells. -/
theorem BackedBy.otherCell (hn : D.isWrapper n = false) {p : Place (D.cells n) s}
    {q : Place (D.cells n) t} (hd : BackedBy d n p) (he : BackedBy e n q)
    (hne : (⟨s, p⟩ : (X : Ty) × Place (D.cells n) X) ≠ ⟨t, q⟩) : D.layout.OtherCell d e := by
  obtain ⟨spare, cell, hasGetMut, hasSet, hd⟩ := hd
  obtain ⟨spare', cell', hasGetMut', hasSet', he⟩ := he
  have haddress : ∃ (i : (D.layout (.declared n)).Cell s) (j : (D.layout (.declared n)).Cell t),
      (D.layout (.declared n)).Addresses (D.handles n spare cell p hasGetMut hasSet) i ∧
        (D.layout (.declared n)).Addresses (D.handles n spare' cell' q hasGetMut' hasSet') j ∧
        (⟨s, i⟩ : (X : Ty) × (D.layout (.declared n)).Cell X) ≠ ⟨t, j⟩ := by
    rw [D.layout_declared hn]
    exact ⟨p, q, D.addresses_rowLayout hn _ _ p _ _, D.addresses_rowLayout hn _ _ q _ _, hne⟩
  obtain ⟨i, j, hi, hj, hne⟩ := haddress
  exact .mk hd he hi hj hne

end Declarations

end MemberAccess
