import MemberAccess.Lambda.Watched
import MemberAccess.Proofs.Lambda.Parse

/-!
# Trails of the cursor

On its way through a run the cursor makes moves: it stays, takes a token that there is, or opens or
closes a level. A run is orderly if its moments are such a trail, on which each active recursion has
a level of its own, and if it ends, with what is asked for or with a rejection. What is composed of
orderly runs is orderly, and a loop is if its turns are and each of them takes a token.

## Main definitions

* `Tape.Moves`, `Tape.Trail`: the moments from one place of the cursor to another.
* `Tape.Orderly`: a run that ends, with a trail of moments.
* `Tape.Reads`: a reader that takes a token, from wherever it begins.

## Main results

* `Tape.Trail.onward`, `Tape.Trail.inBounds`: what holds along a trail.
* `Tape.Orderly.bind`, `Tape.Reads.within`, `Tape.Orderly.loop`: what is composed of orderly runs.
-/

namespace MemberAccess

namespace Tape

/-! ### Trails -/

/-- **No more recursions are active than levels are open,** and no more levels than may be. -/
structure InBounds (active : List Recursion) (depth : Nat) : Prop where
  active_le : active.length ≤ depth
  depth_le : depth ≤ Lambda.nestingLimit

/-- A recursion may be begun on one level more, below the limit. -/
theorem InBounds.push {active : List Recursion} {depth : Nat} (h : InBounds active depth)
    (hdepth : depth < Lambda.nestingLimit) (recursion : Recursion) :
    InBounds (recursion :: active) (depth + 1) :=
  ⟨Nat.succ_le_succ h.active_le, hdepth⟩

/-- The bounds hold on one level more, below the limit. -/
theorem InBounds.descend {active : List Recursion} {depth : Nat} (h : InBounds active depth)
    (hdepth : depth < Lambda.nestingLimit) : InBounds active (depth + 1) :=
  ⟨Nat.le_succ_of_le h.active_le, hdepth⟩

/-- **A move of the cursor:** it stays, takes a token that there is, or opens or closes a level. -/
inductive Moves (tape : Tape) : Cursor → Cursor → Prop
  | stay (s : Cursor) : Moves tape s s
  | token {position depth : Nat} (h : position < tape.tokens.length) :
      Moves tape ⟨position, depth⟩ ⟨position + 1, depth⟩
  | descend {position depth : Nat} (h : depth < Lambda.nestingLimit) :
      Moves tape ⟨position, depth⟩ ⟨position, depth + 1⟩
  | ascend {position depth : Nat} : Moves tape ⟨position, depth + 1⟩ ⟨position, depth⟩

/-- **The moments from one place of the cursor to another:** each of them is in bounds, and one move
from the place before. -/
inductive Trail (tape : Tape) : Cursor → List Moment → Cursor → Prop
  | nil (s : Cursor) : Trail tape s [] s
  | cons {s s' : Cursor} {x : Moment} {moments : List Moment} (hmove : tape.Moves s x.cursor)
      (hbounds : InBounds x.active x.cursor.depth) (hrest : Trail tape x.cursor moments s') :
      Trail tape s (x :: moments) s'

variable {tape : Tape} {s s' t : Cursor} {moments later : List Moment}

/-- A move goes on, and not past the tokens. -/
theorem Moves.onward (h : tape.Moves s t) :
    s.position ≤ t.position ∧ t.position ≤ max s.position tape.tokens.length := by
  cases h with
  | token h => exact ⟨Nat.le_succ _, Nat.le_trans h (Nat.le_max_right _ _)⟩
  | _ => exact ⟨Nat.le_refl _, Nat.le_max_left _ _⟩

/-- One trail after another is a trail. -/
theorem Trail.append (h : tape.Trail s moments s') (hlater : tape.Trail s' later t) :
    tape.Trail s (moments ++ later) t := by
  induction h with
  | nil => exact hlater
  | cons hmove hbounds _ ih => exact .cons hmove hbounds (ih hlater)

/-- All moments of a trail are in bounds. -/
theorem Trail.inBounds (h : tape.Trail s moments s') :
    ∀ x ∈ moments, InBounds x.active x.cursor.depth := by
  induction h with
  | nil => exact fun _ hx => nomatch hx
  | cons _ hbounds _ ih => exact List.forall_mem_cons.2 ⟨hbounds, ih⟩

/-- The places on a trail do not go back, nor past the tokens. -/
theorem Trail.onward (h : tape.Trail s moments s') :
    (s.position :: (moments.map (·.cursor.position) ++ [s'.position])).Pairwise (· ≤ ·) ∧
      s'.position ≤ max s.position tape.tokens.length := by
  induction h with
  | nil s => exact ⟨List.pairwise_pair.2 (Nat.le_refl _), Nat.le_max_left _ _⟩
  | cons hmove _ _ ih =>
      obtain ⟨hforward, hwithin⟩ := hmove.onward
      obtain ⟨hsorted, hend⟩ := ih
      refine ⟨List.pairwise_cons.2 ⟨fun p hp => ?_, hsorted⟩, by omega⟩
      rcases List.mem_cons.1 hp with rfl | hp
      · exact hforward
      · exact Nat.le_trans hforward ((List.pairwise_cons.1 hsorted).1 p hp)

/-- The end of a trail is not before its beginning. -/
theorem Trail.position_le (h : tape.Trail s moments s') : s.position ≤ s'.position :=
  (List.pairwise_cons.1 h.onward.1).1 _ (List.mem_append_right _ (List.mem_singleton_self _))

/-! ### Orderly runs -/

/-- **An orderly run** ends with what is asked for, or with a rejection, and its moments are a trail
from where it begins to where it ends. -/
inductive Orderly (tape : Tape) {α : Type} (post : α → Cursor → Prop) (start : Cursor) :
    Course α → Prop
  | ok {moments : List Moment} {a : α} {s : Cursor} (htrail : tape.Trail start moments s)
      (hpost : post a s) : Orderly tape post start ⟨moments, some (.ok (a, s))⟩
  | rejected {moments : List Moment} {s : Cursor} {e : SyntaxError}
      (htrail : tape.Trail start moments s) :
      Orderly tape post start ⟨moments, some (.error (.rejected e))⟩

/-- The cursor stands at `lower` or behind it, not past the tokens, with `depth` levels open. -/
structure Stands (tape : Tape) (lower depth : Nat) (s : Cursor) : Prop where
  lower_le : lower ≤ s.position
  within : s.position ≤ tape.tokens.length
  depth_eq : s.depth = depth

/-- **A reader takes a token,** from wherever it begins, and leaves as many levels open as there
are. -/
def Reads (tape : Tape) {α : Type} (active : List Recursion) (depth : Nat) (m : Watched α) : Prop :=
  ∀ position, tape.Orderly (fun _ => tape.Stands (position + 1) depth) ⟨position, depth⟩
    (m active ⟨position, depth⟩)

/-- The end of a turn of a loop: behind a token in the loop, or at `lower` or behind it with `exit`
levels open. -/
def EndsTurn (tape : Tape) {α β : Type} (position depth lower exit : Nat) :
    Turn α β → Cursor → Prop
  | .again _ => tape.Stands (position + 1) depth
  | .stop _ => tape.Stands lower exit

variable {α β : Type} {post : β → Cursor → Prop} {active : List Recursion}
  {position depth lower exit : Nat}

/-- The end of an orderly run. -/
theorem Orderly.ends {course : Course β} (h : tape.Orderly post s course) :
    ∃ t, tape.Trail s course.moments t ∧
      ((∃ b, course.outcome = some (.ok (b, t)) ∧ post b t) ∨
        ∃ e, course.outcome = some (.error (.rejected e))) := by
  cases h with
  | ok htrail hpost => exact ⟨_, htrail, .inl ⟨_, rfl, hpost⟩⟩
  | rejected htrail => exact ⟨_, htrail, .inr ⟨_, rfl⟩⟩

/-- A value that is given without a step is orderly. -/
theorem Orderly.pure {b : β} (h : post b s) :
    tape.Orderly post s ((Pure.pure b : Watched β) active s) :=
  .ok (.nil s) h

/-- **What follows an orderly run** goes on behind it. -/
theorem Orderly.bind {mid : α → Cursor → Prop} {m : Watched α} {k : α → Watched β}
    (hm : tape.Orderly mid s (m active s))
    (hk : ∀ a t, s.position ≤ t.position → mid a t → tape.Orderly post t (k a active t)) :
    tape.Orderly post s ((m >>= k) active s) := by
  have hbind : (m >>= k) active s = (m active s).andThen fun a t => k a active t := rfl
  rw [hbind]
  generalize m active s = course at hm
  cases hm with
  | @ok moments a t htrail hmid =>
      have hlater := hk a t htrail.position_le hmid
      have hthen : Course.andThen ⟨moments, some (.ok (a, t))⟩ (fun a t => k a active t) =
          ⟨moments ++ (k a active t).moments, (k a active t).outcome⟩ := rfl
      rw [hthen]
      generalize k a active t = later at hlater
      cases hlater with
      | ok hrest hpost => exact .ok (htrail.append hrest) hpost
      | rejected hrest => exact .rejected (htrail.append hrest)
  | rejected htrail => exact .rejected htrail

/-- What follows a run that ends where the cursor stands. -/
theorem Orderly.stands_bind {m : Watched α} {k : α → Watched β}
    (hm : tape.Orderly (fun _ => tape.Stands lower exit) s (m active s))
    (hk : ∀ a position, lower ≤ position → position ≤ tape.tokens.length →
      tape.Orderly post ⟨position, exit⟩ (k a active ⟨position, exit⟩)) :
    tape.Orderly post s ((m >>= k) active s) := by
  refine hm.bind fun a t _ hstands => ?_
  obtain ⟨position, depth⟩ := t
  obtain ⟨hlower, hwithin, rfl⟩ := hstands
  exact hk a position hlower hwithin

/-- A value where the cursor stands. -/
theorem Orderly.stand {a : α} (hlower : lower ≤ position)
    (hwithin : position ≤ tape.tokens.length) :
    tape.Orderly (fun _ => tape.Stands lower depth) ⟨position, depth⟩
      ((Pure.pure a : Watched α) active ⟨position, depth⟩) :=
  .pure ⟨hlower, hwithin, rfl⟩

/-- A turn that has moved on may be followed by another. -/
theorem Orderly.again {next : Nat} (hnext : position < next)
    (hwithin : next ≤ tape.tokens.length) (b : β) :
    tape.Orderly (tape.EndsTurn position depth lower exit) ⟨next, depth⟩
      ((Pure.pure (.again b) : Watched (Turn α β)) active ⟨next, depth⟩) :=
  .pure ⟨hnext, hwithin, rfl⟩

/-- A loop may stop at the depth that it is to end with. -/
theorem Orderly.stop {next : Nat} (hnext : lower ≤ next) (hwithin : next ≤ tape.tokens.length)
    (a : α) :
    tape.Orderly (tape.EndsTurn position depth lower exit) ⟨next, exit⟩
      ((Pure.pure (.stop a) : Watched (Turn α β)) active ⟨next, exit⟩) :=
  .pure ⟨hnext, hwithin, rfl⟩

/-! ### Steps -/

/-- A step that moves within the bounds is orderly. -/
theorem Orderly.step {m : Parse β} {b : β} (hrun : m s = some (.ok (b, t))) (hmove : tape.Moves s t)
    (hbounds : InBounds active t.depth) (hpost : post b t) :
    tape.Orderly post s ((MonadParse.step m : Watched β) active s) := by
  have hstep : (MonadParse.step m : Watched β) active s = Course.ofStep active (m s) := rfl
  rw [hstep, hrun]
  exact .ok (.cons hmove hbounds (.nil t)) hpost

/-- What follows a step. -/
theorem Orderly.step_bind {m : Parse α} {k : α → Watched β} {a : α}
    (hrun : m s = some (.ok (a, t))) (hmove : tape.Moves s t) (hbounds : InBounds active t.depth)
    (hk : tape.Orderly post t (k a active t)) :
    tape.Orderly post s ((MonadParse.step m >>= k) active s) := by
  have hstep : tape.Orderly (fun b u => b = a ∧ u = t) s
      ((MonadParse.step m : Watched α) active s) :=
    .step hrun hmove hbounds ⟨rfl, rfl⟩
  refine hstep.bind fun b u _ h => ?_
  obtain ⟨rfl, rfl⟩ := h
  exact hk

/-- A step that rejects is orderly. -/
theorem Orderly.step_rejected {m : Parse β} {e : SyntaxError}
    (hrun : m s = some (.error (.rejected e))) :
    tape.Orderly post s ((MonadParse.step m : Watched β) active s) := by
  have hstep : (MonadParse.step m : Watched β) active s = Course.ofStep active (m s) := rfl
  rw [hstep, hrun]
  exact .rejected (.nil s)

/-- So is the rejection of the next token. -/
theorem Orderly.unexpected (what : Expectation) :
    tape.Orderly post s ((MonadParse.step (tape.unexpected what) : Watched β) active s) :=
  .step_rejected rfl

/-- One more recursion is active, and has a level of its own. -/
theorem Reads.within {recursion : Recursion} {m : Watched α}
    (hbounds : InBounds (recursion :: active) depth)
    (h : tape.Reads (recursion :: active) depth m) :
    tape.Reads active depth (MonadParse.within recursion m) := by
  intro position
  have hrun := h position
  have hwithin : MonadParse.within recursion m active ⟨position, depth⟩ =
      (m (recursion :: active) ⟨position, depth⟩).startingAt
        ⟨⟨position, depth⟩, recursion :: active⟩ := rfl
  rw [hwithin]
  generalize m (recursion :: active) ⟨position, depth⟩ = course at hrun ⊢
  cases hrun with
  | ok htrail hpost => exact .ok (.cons (.stay _) hbounds htrail) hpost
  | rejected htrail => exact .rejected (.cons (.stay _) hbounds htrail)

/-- There is a token at a position in front of the end. -/
theorem lt_of_tokenAt {token : Token} (h : tape.tokenAt position = some token) :
    position < tape.tokens.length := by
  obtain ⟨placed, hplaced, -⟩ := Option.map_eq_some_iff.1 h
  exact (List.getElem?_eq_some_iff.1 hplaced).1

/-- A move over one token that is there is safe. -/
theorem move_one (hfits : tape.Fits) (hposition : position < tape.tokens.length) :
    tape.move 1 ⟨position, depth⟩ = some (.ok ((), ⟨position + 1, depth⟩)) := by
  have hat : tape.At position ((tape.tokens.drop position).map Placed.token) :=
    ⟨Nat.le_of_lt hposition, rfl⟩
  refine move_run hfits hat ?_
  rw [List.length_map, List.length_drop]
  omega

section

variable (hbounds : InBounds active depth)

include hbounds

/-- A look at the next token. -/
theorem Orderly.peek_bind {k : Option Token → Watched β}
    (hk : tape.Orderly post ⟨position, depth⟩
      (k (tape.tokenAt position) active ⟨position, depth⟩)) :
    tape.Orderly post ⟨position, depth⟩
      ((MonadParse.step tape.peek >>= k) active ⟨position, depth⟩) :=
  .step_bind rfl (.stay _) hbounds hk

/-- Steps that ask for a token. -/
theorem Orderly.onToken {token : Token} {m m' : Watched β}
    (hnext : tape.tokenAt position = some token →
      tape.Orderly post ⟨position, depth⟩ (m active ⟨position, depth⟩))
    (hother : tape.Orderly post ⟨position, depth⟩ (m' active ⟨position, depth⟩)) :
    tape.Orderly post ⟨position, depth⟩
      ((MonadParse.step tape.peek >>= fun found => if found = some token then m else m') active
        ⟨position, depth⟩) := by
  refine .peek_bind hbounds ?_
  by_cases htoken : tape.tokenAt position = some token
  · rw [if_pos htoken]
    exact hnext htoken
  · rw [if_neg htoken]
    exact hother

/-- A step that takes a token. -/
theorem Orderly.token {m : Parse α} {a : α} (hposition : position < tape.tokens.length)
    (hrun : m ⟨position, depth⟩ = some (.ok (a, ⟨position + 1, depth⟩))) :
    tape.Orderly (fun _ => tape.Stands (position + 1) depth) ⟨position, depth⟩
      ((MonadParse.step m : Watched α) active ⟨position, depth⟩) :=
  .step hrun (.token hposition) hbounds ⟨Nat.le_refl _, hposition, rfl⟩

/-- A level is closed that is open above those of the active recursions. -/
theorem Orderly.ascend_bind {k : Unit → Watched β}
    (hk : tape.Orderly post ⟨position, depth⟩ (k () active ⟨position, depth⟩)) :
    tape.Orderly post ⟨position, depth + 1⟩
      ((MonadParse.step Tape.ascend >>= k) active ⟨position, depth + 1⟩) :=
  .step_bind rfl .ascend hbounds hk

variable (hfits : tape.Fits)

include hfits

/-- A level is opened, if one is left. -/
theorem Orderly.descend_bind {k : Unit → Watched β}
    (hk : depth < Lambda.nestingLimit →
      tape.Orderly post ⟨position, depth + 1⟩ (k () active ⟨position, depth + 1⟩)) :
    tape.Orderly post ⟨position, depth⟩
      ((MonadParse.step tape.descend >>= k) active ⟨position, depth⟩) := by
  rcases Nat.lt_or_eq_of_le hbounds.depth_le with hdepth | rfl
  · have hdescend : tape.descend ⟨position, depth⟩ = some (.ok ((), ⟨position, depth + 1⟩)) := by
      rw [← bind_pure tape.descend, Tape.descend_bind hfits hdepth]
      rfl
    exact .step_bind hdescend (.descend hdepth) (hbounds.descend hdepth) (hk hdepth)
  · have hrejected : tape.Orderly (fun _ _ => False) ⟨position, Lambda.nestingLimit⟩
        ((MonadParse.step tape.descend : Watched Unit) active ⟨position, Lambda.nestingLimit⟩) :=
      .step_rejected rfl
    exact hrejected.bind fun _ _ _ h => h.elim

/-- The next token is taken, if there is one. -/
theorem Orderly.advance_bind {k : Unit → Watched β} {t : Token}
    (ht : tape.tokenAt position = some t)
    (hk : position < tape.tokens.length →
      tape.Orderly post ⟨position + 1, depth⟩ (k () active ⟨position + 1, depth⟩)) :
    tape.Orderly post ⟨position, depth⟩
      ((MonadParse.step tape.advance >>= k) active ⟨position, depth⟩) := by
  have hposition := lt_of_tokenAt ht
  have hadvance : tape.advance ⟨position, depth⟩ =
      (if (tape.tokenAt position).isSome then tape.move 1 else Pure.pure ())
        ⟨position, depth⟩ := rfl
  rw [ht, Option.isSome_some, if_pos rfl, move_one hfits hposition] at hadvance
  exact .step_bind hadvance (.token hposition) hbounds (hk hposition)

/-- An expected symbol is read in order. -/
theorem reads_expect (symbol : Symbol) :
    tape.Reads active depth (MonadParse.step (tape.expect symbol)) := by
  intro position
  have hexpect : tape.expect symbol ⟨position, depth⟩ =
      (if tape.tokenAt position = some (.symbol symbol) then tape.move 1
        else tape.unexpected (.symbol symbol)) ⟨position, depth⟩ := rfl
  by_cases htoken : tape.tokenAt position = some (.symbol symbol)
  · have hposition := lt_of_tokenAt htoken
    rw [if_pos htoken, move_one hfits hposition] at hexpect
    exact .token hbounds hposition hexpect
  · rw [if_neg htoken] at hexpect
    exact .step_rejected hexpect

/-- An expected name is read in order. -/
theorem reads_ident (what : Expectation) :
    tape.Reads active depth (MonadParse.step (tape.ident what)) := by
  intro position
  have hpeek : tape.peek ⟨position, depth⟩ =
      some (.ok (tape.tokenAt position, ⟨position, depth⟩)) := rfl
  cases htoken : tape.tokenAt position with
  | none =>
      rw [htoken] at hpeek
      have hident : tape.ident what ⟨position, depth⟩ =
          tape.unexpected what ⟨position, depth⟩ := by
        rw [Tape.ident, Parse.bind_of_ok hpeek]
      exact .step_rejected hident
  | some t =>
      rw [htoken] at hpeek
      cases t with
      | ident name =>
          have hposition := lt_of_tokenAt htoken
          have hident : tape.ident what ⟨position, depth⟩ =
              some (.ok (name, ⟨position + 1, depth⟩)) := by
            rw [Tape.ident, Parse.bind_of_ok hpeek]
            exact Parse.bind_of_ok (move_one hfits hposition) _
          exact .token hbounds hposition hident
      | _ =>
          have hident : tape.ident what ⟨position, depth⟩ =
              tape.unexpected what ⟨position, depth⟩ := by
            rw [Tape.ident, Parse.bind_of_ok hpeek]
          exact .step_rejected hident

end

/-! ### Loops -/

/-- **A loop is orderly** if its turns are. Each turn but the last takes a token, so that there are
no more of them than tokens. -/
theorem Orderly.loop (hfits : tape.Fits) {turn : β → Watched (Turn α β)}
    (hturn : ∀ b position, lower ≤ position → position ≤ tape.tokens.length →
      tape.Orderly (tape.EndsTurn position depth lower exit) ⟨position, depth⟩
        (turn b active ⟨position, depth⟩))
    (hlower : lower ≤ position) (hwithin : position ≤ tape.tokens.length) (b : β) :
    tape.Orderly (fun _ => tape.Stands lower exit) ⟨position, depth⟩
      (MonadParse.loop turn tape.budget b active ⟨position, depth⟩) := by
  have hbudget : tape.tokens.length < tape.budget + position :=
    Nat.lt_add_right _ hfits.turns
  generalize tape.budget = budget at hbudget
  induction budget generalizing b position with
  | zero => omega
  | succ budget ih =>
      rw [MonadParse.loop]
      refine (hturn b position hlower hwithin).bind fun next s _ hnext => ?_
      cases next with
      | stop a => exact .pure hnext
      | again b =>
          obtain ⟨next, _⟩ := s
          obtain ⟨hnext, hwithin, rfl⟩ := hnext
          simp only at hnext hwithin
          exact ih (by omega) hwithin b (by omega)

end Tape

end MemberAccess
