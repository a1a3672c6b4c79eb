import MemberAccess.Source.Fault
import MemberAccess.Source.Scan

/-!
# Readers of code

A reader takes what it needs from the front of the tokens of a group, or fails. What stands in a
group is read as a group of its own; if some of it is left over there, the reading goes on, and the
leftover is remembered as a fault for the end.

## Main definitions

* `Cursor`: the tokens that are still to be read, and the first leftover.
* `CodeReader`: the readers.
* `CodeReader.repeated`: a reader used again and again.
* `CodeReader.inside`: a reader of the content of a group.
-/

namespace MemberAccess.Source

/-- **A place in code:** the tokens up to the end of the group, and the brackets of the first group
whose content was not read as a whole. -/
structure Cursor where
  rest : List TokenTree
  leftOver : Option Bracket

/-- **A reader** of a value. -/
abbrev CodeReader (α : Type) := StateT Cursor (Except Fault) α

namespace CodeReader

variable {α : Type}

/-! ### Looking ahead -/

/-- The tokens that are still to be read. -/
def ahead : CodeReader (List TokenTree) :=
  return (← get).rest

/-- Whether nothing is to be read any more. -/
def atEnd : CodeReader Bool :=
  return (← ahead).isEmpty

/-- Whether an operator stands here. -/
def sees (s : String) : CodeReader Bool :=
  return (afterMarks? s.toList (← ahead)).isSome

/-- Whether the word `w` stands here. -/
def seesWord (w : String) : CodeReader Bool := do
  match ← ahead with
  | .word v :: _ => return v = w
  | _ => return false

/-- Whether an identifier stands here. -/
def seesIdentifier : CodeReader Bool := do
  match ← ahead with
  | .word v :: _ => return !keywords.contains v
  | _ => return false

/-- Whether a lifetime stands here. -/
def seesLifetime : CodeReader Bool :=
  return (← ahead).head?.any (·.isLifetime)

/-- Whether a group between the brackets `b` stands here. -/
def seesGroup (b : Bracket) : CodeReader Bool :=
  return (← ahead).head?.any (·.isGroup b)

/-! ### Failing -/

/-- Fails with a fault. -/
def reject (f : Fault) : CodeReader α :=
  throw f

/-- Fails because something else stands here. -/
def want (what : Wanted) : CodeReader α := do
  reject (.wanted what (← atEnd))

/-! ### One token -/

/-- Goes on to the tokens `ts`. -/
def goTo (ts : List TokenTree) : CodeReader Unit :=
  modify fun c => { c with rest := ts }

/-- Reads an operator. -/
def mark (s : String) : CodeReader (List TokenTree) := do
  match afterMarks? s.toList (← ahead) with
  | some ts => goTo ts; return symbol s
  | none => reject (.wantedMark s)

/-- Reads an operator if it stands here. -/
def markIf (s : String) : CodeReader (List TokenTree) := do
  if ← sees s then mark s else return []

/-- Reads the word `w`. -/
def word (w : String) : CodeReader (List TokenTree) := do
  match ← ahead with
  | .word v :: ts => if v = w then goTo ts; return [.word w] else want (.keyword w)
  | _ => want (.keyword w)

/-- Reads the word `w` if it stands here. -/
def wordIf (w : String) : CodeReader (List TokenTree) := do
  if ← seesWord w then word w else return []

/-- Reads an identifier. -/
def identifier : CodeReader String := do
  match ← ahead with
  | .word v :: ts => if keywords.contains v then reject (.foundKeyword v) else goTo ts; return v
  | _ => want .identifier

/-- Reads a word, which may be a keyword. -/
def segment : CodeReader String := do
  match ← ahead with
  | .word v :: ts => goTo ts; return v
  | _ => want .segment

/-- Reads a lifetime. -/
def lifetime : CodeReader (List TokenTree) := do
  match ← ahead with
  | .lifetime v :: ts => goTo ts; return [.lifetime v]
  | _ => want .lifetime

/-- Reads a string literal. -/
def stringLiteral : CodeReader StringLiteral := do
  match ← ahead with
  | .literal text :: ts =>
    match StringLiteral.ofText? text with
    | some l => goTo ts; return l
    | none => want .stringLiteral
  | _ => want .stringLiteral

/-- Reads a group as it stands. -/
def anyGroup : CodeReader (List TokenTree) := do
  match ← ahead with
  | .group b content :: ts => goTo ts; return [.group b content]
  | _ => want .anyGroup

/-! ### Several tokens -/

/-- **Reads the content of a group.** The first group with a leftover is remembered. -/
def inside (b : Bracket) (inner : CodeReader α) : CodeReader α := do
  match ← ahead with
  | .group d content :: ts =>
    if d = b then
      goTo content
      let a ← inner
      let c ← get
      set (⟨ts, c.leftOver.or (if c.rest.isEmpty then none else some b)⟩ : Cursor)
      return a
    else want (.group b)
  | _ => want (.group b)

/-- Reads the content of a group, and puts the brackets around what is read. -/
def wrapped (b : Bracket) (inner : CodeReader (List TokenTree)) : CodeReader (List TokenTree) := do
  return [.group b (← inside b inner)]

/-- **Reads a value again and again,** as long as the reader says that another one follows and has
got ahead. -/
def repeated (step : CodeReader (α × Bool)) : CodeReader (List α) := fun c =>
  match step c with
  | .error e => .error e
  | .ok ((a, again), after) =>
    if again ∧ after.rest.length < c.rest.length then
      match repeated step after with
      | .error e => .error e
      | .ok (more, last) => .ok (a :: more, last)
    else .ok ([a], after)
termination_by c => c.rest.length
decreasing_by rename_i h; exact h.2

/-- Reads tokens again and again, and puts them together. -/
def gathered (step : CodeReader (List TokenTree × Bool)) : CodeReader (List TokenTree) := do
  return (← repeated step).flatten

/-- Reads what stands between commas, up to the end of the group. A comma may follow the last. -/
def commaSeparated (item : CodeReader (List TokenTree)) : CodeReader (List TokenTree) :=
  gathered do
    if ← atEnd then return ([], false)
    let ts ← item
    if ← atEnd then return (ts, false)
    return (ts ++ (← mark ","), true)

/-- Reads attributes as they stand. -/
def attributes : CodeReader (List TokenTree) :=
  gathered do
    if ← sees "#" then return ((← mark "#") ++ (← anyGroup), true)
    return ([], false)

end CodeReader

end MemberAccess.Source
