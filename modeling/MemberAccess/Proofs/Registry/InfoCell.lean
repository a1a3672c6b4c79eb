import Mathlib.Data.List.Nodup
import Mathlib.Tactic.Tauto
import MemberAccess.Registry.InfoCell

/-!
# One description for each type

A computation that asks a cell for descriptions is taken apart into turns: a call finds what is
stored, or its initialiser begins; an initialiser ends, and the call gets what the cell has then.
Calls that wait for their initialisers are stacked, as one may ask in the course of another. The
events of the turns tell what was asked, computed and answered, and the cell is told by them: for
each type it stores what was computed for it first, at one place for good.

## Main definitions

* `Request.Stage`, `Request.Event`, `Request.Turn`: a computation, turn by turn.
* `Request.Course`: the turns from one stage to another, by their events.
* `Request.first?`: what was computed for a type first.
* `Request.Told`: the cell is told by the events.

## Main results

* `Request.exists_course`: the turns of a computation lead to its outcome.
* `Request.Told.turn`, `Request.Told.course`: each turn keeps the cell told by its events.
* `Request.one_info_per_type`: all calls for a type get what was stored for it first.
-/

namespace MemberAccess

variable {κ ι : Type}

/-! ### Cells -/

namespace InfoCell

variable {c : InfoCell κ ι} {key : κ} {info : ι}

/-- With one entry for each type, the entry of a type has one place. -/
theorem place_unique (hnodup : (c.entries.map Prod.fst).Nodup) {i j : Nat} {info' : ι}
    (hi : c.entries[i]? = some (key, info)) (hj : c.entries[j]? = some (key, info')) :
    i = j ∧ info = info' := by
  have hkeys : (c.entries.map Prod.fst)[i]? = (c.entries.map Prod.fst)[j]? := by
    rw [List.getElem?_map, List.getElem?_map, hi, hj]
    rfl
  have hlength : i < (c.entries.map Prod.fst).length := by
    rw [List.length_map]
    exact (List.getElem?_eq_some_iff.1 hi).1
  obtain rfl := (List.getElem?_inj hlength hnodup).1 hkeys
  exact ⟨rfl, (Prod.mk.inj (Option.some.inj (hi.symm.trans hj))).2⟩

variable [DecidableEq κ]

/-- What a call gets is what was stored, or else what was computed. -/
theorem getOrInsert_fst : (c.getOrInsert key info).1 = (c.get? key).getD info := by
  rw [getOrInsert]
  cases c.get? key <;> rfl

/-- Storing only adds behind what is stored. -/
theorem getOrInsert_prefix : c.entries <+: (c.getOrInsert key info).2.entries := by
  rw [getOrInsert]
  cases c.get? key with
  | none => exact List.prefix_append _ _
  | some stored => exact List.prefix_rfl

/-- A description is stored only where there is none. -/
theorem get?_getOrInsert (other : κ) : (c.getOrInsert key info).2.get? other =
    (c.get? other).or (if key = other then some info else none) := by
  rw [getOrInsert]
  cases hkey : c.get? key with
  | none =>
      dsimp only
      rw [get?, get?, List.find?_append, Option.map_or]
      by_cases hother : key = other
      · simp [hother]
      · simp [hother]
  | some stored =>
      dsimp only
      by_cases hother : key = other
      · rw [← hother, hkey, Option.some_or]
      · rw [if_neg hother, Option.or_none]

/-- A type is a key of a cell if something is stored for it. -/
theorem isSome_get?_iff : (c.get? key).isSome = true ↔ key ∈ c.entries.map Prod.fst := by
  simp [get?]

/-- What is stored for a type is an entry. -/
theorem mem_of_get?_eq_some (h : c.get? key = some info) : (key, info) ∈ c.entries := by
  rw [get?, Option.map_eq_some_iff] at h
  obtain ⟨⟨other, stored⟩, hfound, rfl⟩ := h
  obtain rfl : other = key := by simpa using List.find?_some hfound
  exact List.mem_of_find?_eq_some hfound

/-- **Storing keeps one entry for each type.** -/
theorem nodup_getOrInsert (h : (c.entries.map Prod.fst).Nodup) :
    ((c.getOrInsert key info).2.entries.map Prod.fst).Nodup := by
  rw [getOrInsert]
  cases hkey : c.get? key with
  | none =>
      have hnew : key ∉ c.entries.map Prod.fst := by
        rw [← isSome_get?_iff, hkey]
        exact Bool.false_ne_true
      dsimp only
      rw [List.map_append, List.nodup_append]
      refine ⟨h, List.nodup_singleton _, fun a ha b hb heq => hnew ?_⟩
      rwa [← (List.mem_singleton.1 hb : b = key), ← heq]
  | some stored => exact h

end InfoCell

namespace Request

variable [DecidableEq κ]

/-! ### Turns -/

/-- **A stage of a computation:** what is still to be done, the calls that wait for their
initialisers, the innermost first, and the cell. -/
structure Stage (κ ι : Type) where
  todo : Request κ ι
  waiting : List (κ × (ι → Request κ ι))
  cell : InfoCell κ ι

/-- The stage at which a computation begins, with a cell that stores nothing. -/
def Stage.first (r : Request κ ι) : Stage κ ι := ⟨r, [], .empty⟩

/-- **What happens in a turn:** a call finds a description; a call finds none, and its initialiser
begins; or an initialiser ends, which has computed a description, and the call gets its answer. -/
inductive Event (κ ι : Type) where
  | found (key : κ) (info : ι)
  | begun (key : κ)
  | ended (key : κ) (computed answer : ι)

namespace Event

/-- The type that a call asks for. -/
def asked? : Event κ ι → Option κ
  | found key _ | begun key => some key
  | ended _ _ _ => none

/-- The answer that a call gets, with the type that it asked for. -/
def answer? : Event κ ι → Option (κ × ι)
  | found key info | ended key _ info => some (key, info)
  | begun _ => none

/-- What is computed for a type. -/
def computed? (key : κ) : Event κ ι → Option ι
  | ended other computed _ => if other = key then some computed else none
  | found _ _ | begun _ => none

end Event

/-- **A turn of a computation.** -/
inductive Turn : Stage κ ι → Event κ ι → Stage κ ι → Prop
  | found {key init next waiting} {c : InfoCell κ ι} {info : ι} (h : c.get? key = some info) :
      Turn ⟨ask key init next, waiting, c⟩ (.found key info) ⟨next info, waiting, c⟩
  | begun {key init next waiting} {c : InfoCell κ ι} (h : c.get? key = none) :
      Turn ⟨ask key init next, waiting, c⟩ (.begun key) ⟨init, (key, next) :: waiting, c⟩
  | ended {key next waiting computed answer} {c c' : InfoCell κ ι}
      (h : c.getOrInsert key computed = (answer, c')) :
      Turn ⟨done computed, (key, next) :: waiting, c⟩ (.ended key computed answer)
        ⟨next answer, waiting, c'⟩

/-- **The course from one stage to another,** by the events of its turns. -/
inductive Course : Stage κ ι → List (Event κ ι) → Stage κ ι → Prop
  | refl (s : Stage κ ι) : Course s [] s
  | head {s t u : Stage κ ι} {e : Event κ ι} {es : List (Event κ ι)} (h : Turn s e t)
      (hrest : Course t es u) : Course s (e :: es) u

variable {s t u : Stage κ ι} {e e' : Event κ ι} {es es' : List (Event κ ι)}

/-- A stage has one turn at most. -/
theorem Turn.unique (h : Turn s e t) (h' : Turn s e' u) : e = e' ∧ t = u := by
  cases h with
  | found h =>
      cases h' with
      | found h' =>
          obtain rfl := Option.some.inj (h.symm.trans h')
          exact ⟨rfl, rfl⟩
      | begun h' => cases h.symm.trans h'
  | begun h =>
      cases h' with
      | found h' => cases h.symm.trans h'
      | begun _ => exact ⟨rfl, rfl⟩
  | ended h =>
      cases h' with
      | ended h' =>
          obtain ⟨rfl, rfl⟩ := Prod.mk.inj (h.symm.trans h')
          exact ⟨rfl, rfl⟩

/-- One course after another is a course. -/
theorem Course.trans (h : Course s es t) (h' : Course t es' u) : Course s (es ++ es') u := by
  induction h with
  | refl _ => exact h'
  | head hturn _ ih => exact .head hturn (ih h')

/-- A course may be parted anywhere. -/
theorem Course.split (h : Course s (es ++ es') u) : ∃ t, Course s es t ∧ Course t es' u := by
  induction es generalizing s with
  | nil => exact ⟨s, .refl s, h⟩
  | cons e es ih =>
      cases h with
      | head hturn hrest =>
          obtain ⟨t, hes, hes'⟩ := ih hrest
          exact ⟨t, .head hturn hes, hes'⟩

/-- **A computation has one course:** every other is the beginning of one to a stage without a
turn. -/
theorem Course.prefix_of_last (h : Course s es t) (hlast : ∀ e u, ¬Turn t e u)
    (h' : Course s es' u) : es' <+: es := by
  induction h' generalizing es with
  | refl _ => exact List.nil_prefix
  | @head s v u e' es' hturn' _ ih =>
      cases h with
      | refl _ => exact absurd hturn' (hlast _ _)
      | head hturn hrest =>
          obtain ⟨rfl, rfl⟩ := hturn.unique hturn'
          exact List.cons_prefix_cons.2 ⟨rfl, ih hrest⟩

/-- **The turns of a computation lead to its outcome,** whatever waits for it. -/
theorem exists_course (r : Request κ ι) (waiting : List (κ × (ι → Request κ ι)))
    (c : InfoCell κ ι) :
    ∃ es, Course ⟨r, waiting, c⟩ es ⟨done (r.run c).1, waiting, (r.run c).2⟩ := by
  induction r generalizing waiting c with
  | done info => exact ⟨[], .refl _⟩
  | ask key init next ihinit ihnext =>
      rw [run]
      cases hkey : c.get? key with
      | some stored =>
          obtain ⟨es, hes⟩ := ihnext stored waiting c
          exact ⟨_, .head (.found hkey) hes⟩
      | none =>
          -- The initialiser has a course of its own, with the call on top of those that wait.
          obtain ⟨es, hes⟩ := ihinit ((key, next) :: waiting) c
          obtain ⟨es', hes'⟩ := ihnext ((init.run c).2.getOrInsert key (init.run c).1).1 waiting
            ((init.run c).2.getOrInsert key (init.run c).1).2
          exact ⟨_, .head (.begun hkey) (hes.trans (.head (.ended rfl) hes'))⟩

/-! ### What the events tell -/

/-- **What was computed for a type first.** -/
def first? (key : κ) (es : List (Event κ ι)) : Option ι :=
  es.findSome? (Event.computed? key)

/-- The types that calls asked for. -/
def asked (es : List (Event κ ι)) : List κ :=
  es.filterMap Event.asked?

/-- **The cell of a stage is told by the events before it:** it stores for each type what was
computed first, once. A type that was asked for has an entry, or a call for it waits for its
initialiser. -/
structure Told (es : List (Event κ ι)) (s : Stage κ ι) : Prop where
  stored : ∀ key, s.cell.get? key = first? key es
  nodup : (s.cell.entries.map Prod.fst).Nodup
  asked : ∀ key, key ∈ asked es ↔
    (s.cell.get? key).isSome = true ∨ key ∈ s.waiting.map Prod.fst

/-- At first, nothing was stored and nothing told. -/
theorem told_first (r : Request κ ι) : Told [] (Stage.first r) where
  stored _ := rfl
  nodup := List.nodup_nil
  asked _ := by simp [Request.asked, Stage.first, InfoCell.empty, InfoCell.get?]

/-- **Each turn keeps the cell told by the events.** -/
theorem Told.turn (h : Told es s) (hturn : Turn s e t) : Told (es ++ [e]) t := by
  obtain ⟨hstored, hnodup, hasked⟩ := h
  have hfirst : ∀ key, first? key (es ++ [e]) = (first? key es).or (e.computed? key) := by
    intro key
    rw [first?, first?, List.findSome?_append, List.findSome?_singleton]
  have hmem : ∀ key, key ∈ Request.asked (es ++ [e]) ↔
      key ∈ Request.asked es ∨ e.asked? = some key := by
    intro key
    simp [Request.asked]
  cases hturn with
  | @found key init next waiting c info hkey =>
      refine ⟨fun other => ?_, hnodup, fun other => ?_⟩
      · rw [hfirst, ← hstored other]
        exact (Option.or_none).symm
      · rw [hmem, hasked, Event.asked?]
        refine or_iff_left_of_imp fun hother => .inl ?_
        obtain rfl := Option.some.inj hother
        exact Option.isSome_of_eq_some hkey
  | @begun key init next waiting c hkey =>
      refine ⟨fun other => ?_, hnodup, fun other => ?_⟩
      · rw [hfirst, ← hstored other]
        exact (Option.or_none).symm
      · rw [hmem, hasked, Event.asked?, List.map_cons, List.mem_cons, Option.some_inj]
        tauto
  | @ended key next waiting computed answer c c' hanswer =>
      obtain rfl : (c.getOrInsert key computed).2 = c' := congrArg Prod.snd hanswer
      refine ⟨fun other => ?_, InfoCell.nodup_getOrInsert hnodup, fun other => ?_⟩
      · rw [hfirst, ← hstored other, InfoCell.get?_getOrInsert, Event.computed?]
      · rw [hmem, hasked, Event.asked?, InfoCell.get?_getOrInsert, List.map_cons, List.mem_cons,
          Option.isSome_or]
        by_cases hother : key = other
        · simp [hother]
        · simp [hother, Ne.symm hother]

/-- **A course keeps the cell told by the events.** -/
theorem Told.course (h : Told es s) (hcourse : Course s es' t) : Told (es ++ es') t := by
  induction hcourse generalizing es with
  | refl _ => rwa [List.append_nil]
  | head hturn _ ih =>
      rw [List.append_cons]
      exact ih (h.turn hturn)

/-- A turn only adds behind what is stored. -/
theorem Turn.entries_prefix (h : Turn s e t) : s.cell.entries <+: t.cell.entries := by
  cases h with
  | found _ | begun _ => exact List.prefix_rfl
  | ended hanswer =>
      obtain rfl := congrArg Prod.snd hanswer
      exact InfoCell.getOrInsert_prefix

/-- **What is stored is never replaced or removed.** -/
theorem Course.entries_prefix (h : Course s es t) : s.cell.entries <+: t.cell.entries := by
  induction h with
  | refl _ => exact List.prefix_rfl
  | head hturn _ ih => exact hturn.entries_prefix.trans ih

/-! ### Answers -/

/-- A course of given events leads to one stage. -/
theorem Course.unique (h : Course s es t) (h' : Course s es u) : t = u := by
  induction h with
  | refl _ =>
      cases h' with
      | refl _ => rfl
  | head hturn _ ih =>
      cases h' with
      | head hturn' hrest' =>
          obtain ⟨-, rfl⟩ := hturn.unique hturn'
          exact ih hrest'

/-- Nothing is left to be done when a value is there and no call waits. -/
theorem not_turn_of_done {info : ι} {c : InfoCell κ ι} (e : Event κ ι) (t : Stage κ ι) :
    ¬Turn ⟨done info, [], c⟩ e t := by
  rintro ⟨⟩

/-- **What a turn does is caused by what was computed before:** a call finds what was computed
first, an initialiser begins if nothing was, and a call gets what its own initialiser has computed
only if that is the first. -/
def Event.CausedBy (before : List (Event κ ι)) : Event κ ι → Prop
  | found key info => first? key before = some info
  | begun key => first? key before = none
  | ended key computed answer => answer = (first? key before).getD computed

/-- Each turn gives what the events before it imply. -/
theorem Told.causedBy (h : Told es s) (hturn : Turn s e t) : e.CausedBy es := by
  cases hturn with
  | found hkey => exact (h.stored _).symm.trans hkey
  | begun hkey => exact (h.stored _).symm.trans hkey
  | ended hanswer =>
      obtain rfl := congrArg Prod.fst hanswer
      rw [Event.CausedBy, ← h.stored]
      exact InfoCell.getOrInsert_fst

/-- What a call gets is stored from then on. -/
theorem Turn.get?_of_answer {key : κ} {answer : ι} (h : Turn s e t)
    (hanswer : e.answer? = some (key, answer)) : t.cell.get? key = some answer := by
  cases h with
  | found hkey =>
      cases hanswer
      exact hkey
  | begun _ => cases hanswer
  | @ended _ _ _ computed _ c _ h =>
      cases hanswer
      obtain rfl := congrArg Prod.fst h
      obtain rfl := congrArg Prod.snd h
      rw [InfoCell.get?_getOrInsert, InfoCell.getOrInsert_fst, if_pos rfl]
      cases c.get? key <;> rfl

/-- What the last call of a course gets is stored. -/
theorem Course.get?_of_answer {key : κ} {answer : ι} (h : Course s (es ++ [e]) t)
    (hanswer : e.answer? = some (key, answer)) : t.cell.get? key = some answer := by
  obtain ⟨_, -, hlast⟩ := h.split
  cases hlast with
  | head hturn hrest =>
      cases hrest with
      | refl _ => exact hturn.get?_of_answer hanswer

/-- What is stored at any time is stored in the end. -/
theorem Course.entries_prefix_last (h : Course s es t) (hcourse : Course s es' u)
    (hlast : ∀ e v, ¬Turn u e v) : t.cell.entries <+: u.cell.entries := by
  obtain ⟨rest, rfl⟩ := hcourse.prefix_of_last hlast h
  obtain ⟨v, hfront, hback⟩ := hcourse.split
  obtain rfl := h.unique hfront
  exact hback.entries_prefix

/-- **All calls for a type get what was stored for it first.** A computation on an empty cell has
one course. What is stored stays at its place. An initialiser runs only if nothing was stored when
its type was asked for. All calls for a type get the description at the same place, which is the one
that was computed for it first. In the end there is one entry for each type that was asked for. -/
theorem one_info_per_type (r : Request κ ι) :
    ∃ trace, Course (.first r) trace ⟨done (r.run .empty).1, [], (r.run .empty).2⟩ ∧
      (∀ es s, Course (.first r) es s → es <+: trace) ∧
      (∀ es s es' t, Course (.first r) es s → Course s es' t →
        s.cell.entries <+: t.cell.entries) ∧
      (∀ before e after, trace = before ++ e :: after → e.CausedBy before) ∧
      (∀ key ∈ asked trace, ∃ (place : Nat) (info : ι), first? key trace = some info ∧
        (r.run .empty).2.entries[place]? = some (key, info) ∧
        ∀ before e s answer, Course (.first r) (before ++ [e]) s →
          e.answer? = some (key, answer) →
            answer = info ∧ s.cell.entries[place]? = some (key, info)) ∧
      ((r.run .empty).2.entries.map Prod.fst).Nodup ∧
      ∀ key, key ∈ (r.run .empty).2.entries.map Prod.fst ↔ key ∈ asked trace := by
  obtain ⟨trace, htrace⟩ := exists_course r [] .empty
  have hbegins : ∀ es s, Course (.first r) es s → es <+: trace := fun es s h =>
    Course.prefix_of_last htrace not_turn_of_done h
  obtain ⟨hstored, hnodup, hasked⟩ : Told trace ⟨done (r.run .empty).1, [], (r.run .empty).2⟩ :=
    (told_first r).course htrace
  refine ⟨trace, htrace, hbegins, fun es s es' t _ h => h.entries_prefix, ?_, ?_, hnodup, ?_⟩
  · rintro before e after rfl
    obtain ⟨s, hbefore, hafter⟩ := Course.split htrace
    cases hafter with
    | head hturn _ => exact ((told_first r).course hbefore).causedBy hturn
  · intro key hkey
    have hsome : ((r.run .empty).2.get? key).isSome = true := by simpa using (hasked key).1 hkey
    obtain ⟨info, hinfo⟩ := Option.isSome_iff_exists.1 hsome
    obtain ⟨place, hplace⟩ := List.mem_iff_getElem?.1 (InfoCell.mem_of_get?_eq_some hinfo)
    refine ⟨place, info, (hstored key).symm.trans hinfo, hplace, ?_⟩
    intro before e s answer hcourse hanswer
    obtain ⟨later, hstays⟩ := hcourse.entries_prefix_last htrace not_turn_of_done
    have hentry := InfoCell.mem_of_get?_eq_some (hcourse.get?_of_answer hanswer)
    obtain ⟨i, hi⟩ := List.mem_iff_getElem?.1 hentry
    have hlast : (r.run .empty).2.entries[i]? = some (key, answer) := by
      rw [← hi, ← List.getElem?_append_left (List.getElem?_eq_some_iff.1 hi).1, hstays]
    obtain ⟨rfl, rfl⟩ := InfoCell.place_unique hnodup hlast hplace
    exact ⟨rfl, hi⟩
  · intro key
    rw [hasked, InfoCell.isSome_get?_iff]
    simp

/-- A computation that asks for a type in the course of computing its description. -/
def nested : Request String Nat :=
  ask "a"
    (ask "a" (done 1) fun first => ask "b" (done 2) fun _ => done (first + 10))
    fun a => ask "b" (done 7) fun b => ask "a" (done 9) fun a' => done (a + b + a')

/-- The outer call gets what the inner one has stored, not what it has computed itself. -/
theorem nested_one_info :
    ∃ trace, Course (.first nested) trace ⟨done 4, [], ⟨[("a", 1), ("b", 2)]⟩⟩ ∧
      ∀ before e s answer, Course (.first nested) (before ++ [e]) s →
        e.answer? = some ("a", answer) → answer = 1 := by
  obtain ⟨trace, hcourse, -, -, -, hanswers, -, hasked⟩ := one_info_per_type nested
  refine ⟨trace, hcourse, fun before e s answer h hanswer => ?_⟩
  obtain ⟨place, info, -, hplace, hinfo⟩ := hanswers "a" ((hasked "a").1 (by decide))
  obtain ⟨rfl, -⟩ := hinfo before e s answer h hanswer
  exact (InfoCell.place_unique (by decide) hplace
    (rfl : (nested.run .empty).2.entries[0]? = some ("a", 1))).2

end Request

end MemberAccess
