/-!
# Cells of descriptions

A cell keeps one description for each type that was asked of it. A description is computed when a
type is first asked for, and the computation may ask the same cell for other types, or even for
the same one. What is stored first stays.

## Main definitions

* `InfoCell`: descriptions by type, in the order of their storing.
* `InfoCell.getOrInsert`: the stored description, or else the one given.
* `Request`: a computation that asks a cell for descriptions.
* `Request.run`: its outcome, and the cell afterwards.
-/

namespace MemberAccess

/-- **A cell of descriptions** `ι` by types `κ`. -/
structure InfoCell (κ ι : Type) where
  entries : List (κ × ι)

namespace InfoCell

variable {κ ι : Type} [DecidableEq κ]

/-- The cell that stores nothing. -/
def empty : InfoCell κ ι := ⟨[]⟩

/-- The description stored for a type. -/
def get? (c : InfoCell κ ι) (key : κ) : Option ι :=
  (c.entries.find? (·.1 = key)).map (·.2)

/-- **The description of a type:** the stored one, and if there is none, `info`, which is stored. -/
def getOrInsert (c : InfoCell κ ι) (key : κ) (info : ι) : ι × InfoCell κ ι :=
  match c.get? key with
  | some stored => (stored, c)
  | none => (info, ⟨c.entries ++ [(key, info)]⟩)

end InfoCell

/-- **A computation that asks a cell for descriptions.** `ask` asks for the description of `key`;
if none is stored, `init` computes it, which may itself ask. The computation goes on with the
answer. -/
inductive Request (κ ι : Type) : Type where
  | done (info : ι)
  | ask (key : κ) (init : Request κ ι) (next : ι → Request κ ι)

namespace Request

variable {κ ι : Type} [DecidableEq κ]

/-- **Runs a computation on a cell.** The cell is looked up again after the description has been
computed, so that what the computation itself has stored is not replaced. -/
def run : Request κ ι → InfoCell κ ι → ι × InfoCell κ ι
  | done info, c => (info, c)
  | ask key init next, c =>
    match c.get? key with
    | some stored => (next stored).run c
    | none =>
      let computed := init.run c
      let answer := computed.2.getOrInsert key computed.1
      (next answer.1).run answer.2

/-- Asks for the description of `key`, which is `info` unless another is stored. -/
def single (key : κ) (info : ι) : Request κ ι :=
  ask key (done info) done

end Request

end MemberAccess
