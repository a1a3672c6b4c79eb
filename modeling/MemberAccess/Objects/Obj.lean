import MemberAccess.Objects.Declaration

/-!
# Objects

The values of a type are defined along its expression. A value of a declared type holds a row of
values, one for each cell, and a list of the cells that were assigned by setters. A wrapper may
hold no row.

## Main definitions

* `Obj`, `Row`: the values of a type and of a list of types.
* `Place`: a place in a row, with its type.
* `Row.get`, `Row.set`: the value at a place.
* `Obj.spareRow?`: some row of a declared type.
* `Obj.poke`, `Obj.markingSetter`: writing an object past the members of its type.
-/

namespace MemberAccess

mutual

/-- **The values of a type.** -/
inductive Obj (D : Declarations) : Ty → Type where
  | bool (b : Bool) : Obj D (.prim .bool)
  | char (c : Char) : Obj D (.prim .char)
  | unit : Obj D (.prim .unit)
  | i32 (n : Int32) : Obj D (.prim .i32)
  | i64 (n : Int64) : Obj D (.prim .i64)
  | u8 (n : UInt8) : Obj D (.prim .u8)
  | u64 (n : UInt64) : Obj D (.prim .u64)
  | string (s : String) : Obj D (.prim .string)
  | ints (ns : List Int32) : Obj D (.vec (.prim .i32))
  | absent {t : Ty} : Obj D (.option t)
  | present {t : Ty} (content : Obj D t) : Obj D (.option t)
  | boxed {t : Ty} (content : Obj D t) : Obj D (.boxed t)
  | record (n : Nat) (row : Row D (D.cells n)) (calls : List Nat) : Obj D (.declared n)
  | hollow (n : Nat) (h : D.isWrapper n = true) (calls : List Nat) : Obj D (.declared n)

/-- **A row of values,** one for each type of a list. -/
inductive Row (D : Declarations) : List Ty → Type where
  | nil : Row D []
  | cons {t : Ty} {ts : List Ty} (head : Obj D t) (tail : Row D ts) : Row D (t :: ts)

end

/-! ### Places in rows -/

/-- **A place in a row** of the types `ts`, which holds a value of the type `t`. -/
inductive Place : List Ty → Ty → Type where
  | head {t : Ty} {ts : List Ty} : Place (t :: ts) t
  | tail {s t : Ty} {ts : List Ty} (p : Place ts t) : Place (s :: ts) t

/-- The place of a number, with its type. -/
def Place.ofNumber? : (ts : List Ty) → Nat → Option ((t : Ty) × Place ts t)
  | [], _ => none
  | t :: _, 0 => some ⟨t, .head⟩
  | _ :: ts, n + 1 => (ofNumber? ts n).map fun p => ⟨p.1, .tail p.2⟩

namespace Row

variable {D : Declarations}

/-- **The value at a place.** -/
def get {ts : List Ty} {t : Ty} : Row D ts → Place ts t → Obj D t
  | cons x _, .head => x
  | cons _ xs, .tail p => xs.get p

/-- **Replaces the value at a place.** -/
def set {ts : List Ty} {t : Ty} : Row D ts → Place ts t → Obj D t → Row D ts
  | cons _ xs, .head, y => cons y xs
  | cons x xs, .tail p, y => cons x (xs.set p y)

/-- What is stored at a place is found there. -/
@[simp] theorem get_set {ts : List Ty} {t : Ty} (r : Row D ts) (p : Place ts t) (y : Obj D t) :
    (r.set p y).get p = y := by
  induction p with
  | head => cases r; rfl
  | tail p ih =>
    cases r with
    | cons x xs => exact ih xs y

/-- To store what is there changes nothing. -/
@[simp] theorem set_get {ts : List Ty} {t : Ty} (r : Row D ts) (p : Place ts t) :
    r.set p (r.get p) = r := by
  induction p with
  | head => cases r; rfl
  | tail p ih =>
    cases r with
    | cons x xs => exact congrArg (cons x) (ih xs)

/-- Of two values stored at one place, the later stays. -/
@[simp] theorem set_set {ts : List Ty} {t : Ty} (r : Row D ts) (p : Place ts t)
    (y z : Obj D t) : (r.set p y).set p z = r.set p z := by
  induction p with
  | head => cases r; rfl
  | tail p ih =>
    cases r with
    | cons x xs => exact congrArg (cons x) (ih xs y z)

/-- The row of the values that `make` gives for each type, if it gives one for all. -/
def fill? (make : (t : Ty) → Option (Obj D t)) : (ts : List Ty) → Option (Row D ts)
  | [] => some nil
  | t :: ts => do
    let x ← make t
    let xs ← fill? make ts
    return cons x xs

end Row

/-! ### Objects of declared types -/

namespace Obj

variable {D : Declarations}

/-- Some value of a type other than a declared one, if one is found. -/
def spareOver? (declared : (n : Nat) → Option (Obj D (.declared n))) :
    (t : Ty) → Option (Obj D t)
  | .prim .bool => some (bool false)
  | .prim .char => some (char ' ')
  | .prim .unit => some unit
  | .prim .i32 => some (i32 0)
  | .prim .i64 => some (i64 0)
  | .prim .u8 => some (u8 0)
  | .prim .u64 => some (u64 0)
  | .prim .string => some (string "")
  | .vec (.prim .i32) => some (ints [])
  | .option _ => some absent
  | .boxed t => (spareOver? declared t).map boxed
  | .declared n => declared n
  | _ => none

/-- Some value of a declared type whose rows nest at most `depth` deep, if there is one. -/
def spareRecord? (D : Declarations) : (depth n : Nat) → Option (Obj D (.declared n))
  | 0, _ => none
  | depth + 1, n =>
    if h : D.isWrapper n = true then some (hollow n h [])
    else (Row.fill? (spareOver? (spareRecord? D depth)) (D.cells n)).map fun row => record n row []

/-- **Some row of a declared type,** if one is found. Types that need a value of their own to have
one are not found. -/
def spareRow? (D : Declarations) (n : Nat) : Option (Row D (D.cells n)) :=
  Row.fill? (spareOver? (spareRecord? D D.types.length)) (D.cells n)

/-- The cells that were assigned by setters, in order. -/
def calls {n : Nat} : Obj D (.declared n) → List Nat
  | record _ _ calls => calls
  | hollow _ _ calls => calls

/-- Notes a call under a number. -/
def note {n : Nat} (mark : Nat) : Obj D (.declared n) → Obj D (.declared n)
  | record n row calls => record n row (calls ++ [mark])
  | hollow n h calls => hollow n h (calls ++ [mark])

/-- Stores a value in a cell, if the object has the cell and the value is of its type. The calls
stay as they are. -/
def poke {n : Nat} (cell : Nat) (t : Ty) (v : Obj D t) : Obj D (.declared n) → Obj D (.declared n)
  | record n row calls =>
    match Place.ofNumber? (D.cells n) cell with
    | none => record n row calls
    | some ⟨s, place⟩ =>
      if h : t = s then record n (row.set place (h ▸ v)) calls else record n row calls
  | hollow n h calls => hollow n h calls

/-- **A setter that leaves a mark.** It notes `mark` in a root of a declared type, and then stores
the value in a cell of the root, if a cell is given that can hold it. -/
def markingSetter (mark : Nat) (cell : Option Nat) {T V : Ty} (root : Obj D T) (v : Obj D V) :
    Obj D T :=
  match T, root with
  | .declared _, o =>
    match cell with
    | none => o.note mark
    | some cell => poke cell V v (o.note mark)
  | _, o => o

end Obj

end MemberAccess
