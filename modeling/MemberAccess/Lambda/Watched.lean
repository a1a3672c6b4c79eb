import MemberAccess.Lambda.Parse

/-!
# Watching the machine

The run of a reader tells where the machine ends and not where it has been. A run that is watched
leaves its moments as well: behind each step that succeeds, where the cursor is and which recursions
are active. The readers ask only for what takes steps, so they can be watched as they are.

## Main definitions

* `Moment`: where the cursor is, and what is active.
* `Course`: a run with its moments.
* `Watched`: steps that are watched.
* `Watched.toParse`: the steps themselves.
-/

namespace MemberAccess

/-- **A moment of a run:** where the cursor is, and the recursions that are active, the innermost
first. -/
structure Moment where
  cursor : Tape.Cursor
  active : List Recursion
deriving DecidableEq

/-- **A run with its moments,** in their order. -/
structure Course (α : Type) where
  moments : List Moment
  outcome : Option (Except Halt (α × Tape.Cursor))

/-- The run of a step, with the moment behind it if it succeeds. -/
def Course.ofStep {α : Type} (active : List Recursion) :
    Option (Except Halt (α × Tape.Cursor)) → Course α
  | none => ⟨[], none⟩
  | some (.error halt) => ⟨[], some (.error halt)⟩
  | some (.ok (a, cursor)) => ⟨[⟨cursor, active⟩], some (.ok (a, cursor))⟩

/-- A run with one moment more, at its beginning. -/
def Course.startingAt {α : Type} (x : Moment) (course : Course α) : Course α :=
  ⟨x :: course.moments, course.outcome⟩

/-- What follows a run goes on where it ends, if it ends with a value. -/
def Course.andThen {α β : Type} (course : Course α) (k : α → Tape.Cursor → Course β) : Course β :=
  match course.outcome with
  | none => ⟨course.moments, none⟩
  | some (.error halt) => ⟨course.moments, some (.error halt)⟩
  | some (.ok (a, cursor)) => ⟨course.moments ++ (k a cursor).moments, (k a cursor).outcome⟩

/-- **Steps that are watched,** within the recursions that are active. -/
def Watched (α : Type) : Type :=
  List Recursion → Tape.Cursor → Course α

namespace Watched

variable {α : Type}

instance : Monad Watched where
  pure a := fun _ cursor => ⟨[], some (.ok (a, cursor))⟩
  bind m k := fun active cursor => (m active cursor).andThen fun a cursor => k a active cursor

/-- Each step leaves a moment, and each recursion begins with one of its own. -/
instance : MonadParse Watched where
  step m := fun active cursor => Course.ofStep active (m cursor)
  within recursion m := fun active cursor =>
    (m (recursion :: active) cursor).startingAt ⟨cursor, recursion :: active⟩

/-- **The steps themselves,** without their moments. -/
def toParse (m : Watched α) (active : List Recursion) : Parse α :=
  fun cursor => (m active cursor).outcome

end Watched

end MemberAccess
