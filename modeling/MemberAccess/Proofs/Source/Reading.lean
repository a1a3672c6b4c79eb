import MemberAccess.Proofs.Source.Forward

/-!
# What readers of code read

A value that is read stands in the code between the place where its reader begins and the place
where it ends. So a way to write values is a relation between two places and a value, and a reader
is exact if what it reads is what is written so. Types are not taken apart here: a type is written
where the reader of types reads one.

## Main definitions

* `Writing`: a way to write values.
* `Reads`: a reader that reads what is written so, and nothing else without a leftover.

## Main results

* `CodeReader.reads_stringLiteral`, `CodeReader.reads_identifier`, `CodeReader.reads_typeText`:
  readers of values are exact.
* `CodeReader.reads_assigned`: so is a reader of what stands behind `=`.
* `CodeReader.key_eq_ok_iff`: a key is one word.
* `CodeReader.mem_repeated`: what is read again and again is read by the steps.
-/

namespace MemberAccess.Source

variable {α β ε : Type}

/-! ### Written values -/

/-- **A way to write values:** a value stands between what is to be read before it and after it. -/
abbrev Writing (α : Type) := List TokenTree → α → List TokenTree → Prop

namespace Writing

/-- A string literal. -/
def string : Writing StringLiteral := fun ts l rest =>
  ∃ text, ts = .literal text :: rest ∧ StringLiteral.ofText? text = some l

/-- An identifier. -/
def identifier : Writing String := fun ts name rest =>
  ts = .word name :: rest ∧ name ∉ keywords

/-- A type, with its text. -/
def type : Writing String := fun ts text rest =>
  CodeReader.typeText ⟨ts, none⟩ = .ok (text, ⟨rest, none⟩)

/-- A value behind `=`. -/
def assigned (R : Writing α) : Writing α := fun ts a rest =>
  ∃ joined more, ts = .mark '=' joined :: more ∧ R more a rest

end Writing

/-! ### Steps of readers -/

namespace CodeReader

variable (c : Cursor)

theorem pure_apply (a : α) : (pure a : CodeReader α) c = .ok (a, c) := rfl

theorem ahead_bind (f : List TokenTree → CodeReader α) : (ahead >>= f) c = f c.rest c := rfl

theorem goTo_bind (ts : List TokenTree) (f : Unit → CodeReader α) :
    (goTo ts >>= f) c = f () { c with rest := ts } := rfl

theorem sees_bind (s : String) (f : Bool → CodeReader α) :
    (sees s >>= f) c = f (afterMarks? s.toList c.rest).isSome c := rfl

theorem want_apply (what : Wanted) :
    (want what : CodeReader α) c = .error (.wanted what c.rest.isEmpty) := rfl

theorem seesWord_bind (w v : String) (rest : List TokenTree) (leftOver : Option Bracket)
    (f : Bool → CodeReader α) :
    (seesWord w >>= f) ⟨.word v :: rest, leftOver⟩ = f (v = w) ⟨.word v :: rest, leftOver⟩ := rfl

variable {c} {d e : Cursor} {step : CodeReader (α × Bool)} {a : α}

/-- A value that another one follows. -/
theorem repeated_cons {as : List α} (h : step c = .ok ((a, true), d))
    (hlength : d.rest.length < c.rest.length) (has : repeated step d = .ok (as, e)) :
    repeated step c = .ok (a :: as, e) := by
  rw [repeated, h]
  simp [hlength, has]

/-- The last value. -/
theorem repeated_last (h : step c = .ok ((a, false), d)) : repeated step c = .ok ([a], d) := by
  rw [repeated, h]
  simp

end CodeReader

/-! ### Exact readers -/

/-- **A reader reads what is written so,** and nothing else without a leftover. -/
def Reads (r : StateT Cursor (Except ε) α) (R : Writing α) : Prop :=
  ∀ {ts rest : List TokenTree} {leftOver : Option Bracket} {a : α},
    r ⟨ts, leftOver⟩ = .ok (a, ⟨rest, none⟩) ↔ leftOver = none ∧ R ts a rest

/-- A single mark is at the front of what it is in front of. -/
theorem afterMarks?_single {c : Char} {ts rest : List TokenTree} :
    afterMarks? [c] ts = some rest ↔ ∃ joined, ts = .mark c joined :: rest := by
  cases ts with
  | nil => simp [afterMarks?]
  | cons t ts =>
      cases t with
      | mark d joined => simp [afterMarks?, eq_comm]
      | word | lifetime | literal | group => simp [afterMarks?]

namespace CodeReader

/-- String literals are read as they are written. -/
theorem reads_stringLiteral : Reads stringLiteral .string := by
  intro ts rest leftOver l
  rw [stringLiteral, ahead_bind]
  dsimp only
  split
  · rename_i text more
    cases hl : StringLiteral.ofText? text with
    | none => simp [want_apply, Writing.string, hl]
    | some read =>
        simp only [goTo_bind, pure_apply, Writing.string, Except.ok.injEq, Prod.mk.injEq,
          Cursor.mk.injEq, List.cons.injEq, TokenTree.literal.injEq]
        constructor
        · rintro ⟨rfl, rfl, hnone⟩
          exact ⟨hnone, text, ⟨rfl, rfl⟩, hl⟩
        · rintro ⟨hnone, _, ⟨rfl, rfl⟩, hread⟩
          exact ⟨Option.some.inj (hl.symm.trans hread), rfl, hnone⟩
  · rename_i hother
    refine iff_of_false (fun h => by cases h) ?_
    rintro ⟨-, text, rfl, -⟩
    exact hother _ _ rfl

/-- Identifiers are read as they are written. -/
theorem reads_identifier : Reads identifier .identifier := by
  intro ts rest leftOver name
  rw [identifier, ahead_bind]
  dsimp only
  split
  · rename_i v more
    by_cases hv : v ∈ keywords
    · rw [if_pos (List.contains_iff_mem.2 hv)]
      refine iff_of_false (fun h => by cases h) ?_
      rintro ⟨-, hword, hname⟩
      cases hword
      exact hname hv
    · rw [if_neg (fun h => hv (List.contains_iff_mem.1 h))]
      simp only [goTo_bind, pure_apply, Writing.identifier, Except.ok.injEq, Prod.mk.injEq,
        Cursor.mk.injEq, List.cons.injEq, TokenTree.word.injEq]
      constructor
      · rintro ⟨rfl, rfl, hnone⟩
        exact ⟨hnone, ⟨rfl, rfl⟩, hv⟩
      · rintro ⟨hnone, ⟨rfl, rfl⟩, -⟩
        exact ⟨rfl, rfl, hnone⟩
  · rename_i hother
    refine iff_of_false (fun h => by cases h) ?_
    rintro ⟨-, rfl, -⟩
    exact hother _ _ rfl

/-- A reader of what stands behind `=`. -/
theorem reads_assigned {r : CodeReader α} {R : Writing α} (h : Reads r R) :
    Reads (mark "=" *> r) R.assigned := by
  intro ts rest leftOver a
  have hseq : (mark "=" *> r) = mark "=" >>= fun _ => r := rfl
  have hchars : "=".toList = ['='] := rfl
  rw [hseq, mark, bind_assoc, ahead_bind, hchars]
  dsimp only
  split
  · rename_i more hmore
    obtain ⟨joined, rfl⟩ := afterMarks?_single.1 hmore
    change r ⟨more, leftOver⟩ = _ ↔ _
    rw [h]
    constructor
    · rintro ⟨hnone, ha⟩
      exact ⟨hnone, joined, more, rfl, ha⟩
    · rintro ⟨hnone, _, _, hcons, ha⟩
      cases hcons
      exact ⟨hnone, ha⟩
  · rename_i hmore
    refine iff_of_false (fun h => by cases h) ?_
    rintro ⟨-, joined, more, rfl, -⟩
    rw [afterMarks?_single.2 ⟨joined, rfl⟩] at hmore
    cases hmore

end CodeReader

/-- Types are read as they are written, by what that is. -/
theorem CodeReader.reads_typeText : Reads typeText .type := by
  intro ts rest leftOver text
  constructor
  · intro h
    obtain rfl := (Forward.leads h).leftOver_eq_none rfl
    exact ⟨rfl, h⟩
  · rintro ⟨rfl, h⟩
    exact h

/-! ### Keys -/

namespace CodeReader

/-- No `::` is taken exactly if none is there. -/
theorem markIf_eq_nil_iff {c d : Cursor} :
    markIf "::" c = .ok ([], d) ↔ d = c ∧ afterMarks? [':', ':'] c.rest = none := by
  have hchars : "::".toList = [':', ':'] := rfl
  rw [markIf, sees_bind, hchars]
  cases h : afterMarks? [':', ':'] c.rest with
  | none => simp [pure_apply, eq_comm]
  | some ts =>
      rw [Option.isSome_some, if_pos rfl, mark, ahead_bind, hchars, h]
      simp [goTo_bind, pure_apply, symbol, marks]

/-- What is read first of all that is gathered. -/
theorem gathered_eq_ok {step : CodeReader (List TokenTree × Bool)} {c d : Cursor}
    {ts : List TokenTree} (h : gathered step c = .ok (ts, d)) :
    ∃ first again after more, step c = .ok ((first, again), after) ∧ ts = first ++ more := by
  obtain ⟨pieces, e, hpieces, h⟩ := bind_eq_ok_iff.1 h
  cases h
  rw [repeated] at hpieces
  split at hpieces
  · cases hpieces
  · rename_i first again after hstep
    refine ⟨first, again, after, ?_⟩
    split at hpieces
    · split at hpieces
      · cases hpieces
      · cases hpieces
        exact ⟨_, hstep, List.flatten_cons⟩
    · cases hpieces
      exact ⟨[], hstep, by simp⟩

/-- The further segments of a key. -/
def furtherSegments : CodeReader (List TokenTree) :=
  gathered do
    if ← sees "::" then return ((← mark "::") ++ [.word (← segment)], true)
    return ([], false)

/-- No further segments are read exactly if no `::` is there. -/
theorem furtherSegments_eq_nil_iff {c d : Cursor} :
    furtherSegments c = .ok ([], d) ↔ d = c ∧ afterMarks? [':', ':'] c.rest = none := by
  have hchars : "::".toList = [':', ':'] := rfl
  cases h : afterMarks? [':', ':'] c.rest with
  | none =>
      rw [furtherSegments, gathered, bind_eq_ok_iff, repeated, sees_bind, hchars, h]
      simp [pure_apply, eq_comm]
  | some ts =>
      refine iff_of_false (fun hnil => ?_) (by simp)
      obtain ⟨first, again, after, more, hstep, hmore⟩ := gathered_eq_ok hnil
      rw [sees_bind, hchars, h, Option.isSome_some, if_pos rfl, bind_eq_ok_iff] at hstep
      obtain ⟨colons, e, -, hstep⟩ := hstep
      obtain ⟨w, e, -, hstep⟩ := bind_eq_ok_iff.1 hstep
      cases hstep
      simp at hmore

/-- The end of a key after its first segment. -/
def afterFirst (leading : List TokenTree) (first : String) : CodeReader (Option String) := do
  let further ← furtherSegments
  return if leading.isEmpty && further.isEmpty then some first else none

/-- A path is its first segment exactly if nothing stands in front of it and no `::` behind. -/
theorem afterFirst_eq_ok_iff {leading : List TokenTree} {first w : String} {c d : Cursor} :
    afterFirst leading first c = .ok (some w, d) ↔
      leading = [] ∧ first = w ∧ d = c ∧ afterMarks? [':', ':'] c.rest = none := by
  rw [afterFirst, bind_eq_ok_iff]
  constructor
  · rintro ⟨further, e, hfurther, h⟩
    by_cases hempty : leading.isEmpty && further.isEmpty
    · rw [if_pos hempty] at h
      cases h
      simp only [Bool.and_eq_true, List.isEmpty_iff] at hempty
      obtain ⟨hleading, rfl⟩ := hempty
      exact ⟨hleading, rfl, furtherSegments_eq_nil_iff.1 hfurther⟩
    · rw [if_neg hempty] at h
      cases h
  · rintro ⟨rfl, rfl, hfurther⟩
    exact ⟨[], d, furtherSegments_eq_nil_iff.2 hfurther, rfl⟩

/-- The first segment of a key, and its end. -/
def keyBehind (leading : List TokenTree) : CodeReader (Option String) := do
  match ← ahead with
  | .word w :: ts => goTo ts; afterFirst leading w
  | [] => afterFirst leading (← want .item)
  | _ =>
    if ← seesLiteral then afterFirst leading (← reject .literalKey)
    else afterFirst leading (← reject .strangeKey)

/-- A key is read where one word stands alone. -/
theorem keyBehind_eq_ok_iff {leading : List TokenTree} {w : String} {c d : Cursor} :
    keyBehind leading c = .ok (some w, d) ↔
      leading = [] ∧ c.rest = .word w :: d.rest ∧ d.leftOver = c.leftOver ∧
        afterMarks? [':', ':'] d.rest = none := by
  obtain ⟨ts, leftOver⟩ := c
  rw [keyBehind, ahead_bind]
  dsimp only
  split
  · rename_i v more
    rw [goTo_bind, afterFirst_eq_ok_iff]
    constructor
    · rintro ⟨hleading, rfl, rfl, hmore⟩
      exact ⟨hleading, rfl, rfl, hmore⟩
    · rintro ⟨hleading, hw, hleft, hmore⟩
      obtain ⟨rest, leftOver'⟩ := d
      cases hw
      cases hleft
      exact ⟨hleading, rfl, rfl, hmore⟩
  · refine iff_of_false (fun h => ?_) (by simp)
    obtain ⟨_, _, h, -⟩ := bind_eq_ok_iff.1 h
    cases h
  · rename_i hword _
    refine iff_of_false (fun h => ?_) (fun h => hword _ _ h.2.1)
    obtain ⟨literal, e, -, h⟩ := bind_eq_ok_iff.1 h
    split at h <;> obtain ⟨_, _, h, -⟩ := bind_eq_ok_iff.1 h <;> cases h

/-- **A key is one word,** with neither an operator `::` in front of it nor one behind it. -/
theorem key_eq_ok_iff {c d : Cursor} {w : String} :
    key c = .ok (some w, d) ↔ c.rest = .word w :: d.rest ∧ d.leftOver = c.leftOver ∧
      afterMarks? [':', ':'] d.rest = none := by
  have hkey : key = markIf "::" >>= keyBehind := by rfl
  rw [hkey, bind_eq_ok_iff]
  constructor
  · rintro ⟨leading, e, hleading, h⟩
    obtain ⟨rfl, hw⟩ := keyBehind_eq_ok_iff.1 h
    obtain ⟨rfl, -⟩ := markIf_eq_nil_iff.1 hleading
    exact hw
  · rintro ⟨hw, h⟩
    have hnone : afterMarks? [':', ':'] c.rest = none := by rw [hw]; rfl
    exact ⟨[], c, markIf_eq_nil_iff.2 ⟨rfl, hnone⟩, keyBehind_eq_ok_iff.2 ⟨rfl, hw, h⟩⟩

/-! ### Parts of what is read -/

/-- What is read again and again is read by the steps. -/
theorem mem_repeated {step : CodeReader (α × Bool)} {c d : Cursor} {as : List α} {a : α}
    (h : repeated step c = .ok (as, d)) (ha : a ∈ as) :
    ∃ c' again d', step c' = .ok ((a, again), d') := by
  fun_induction repeated step c generalizing d as with
  | case1 | case2 => cases h
  | case3 c b again after hstep _ more last hmore ih =>
      cases h
      rcases List.mem_cons.1 ha with rfl | ha
      · exact ⟨c, again, after, hstep⟩
      · exact ih hmore ha
  | case4 c b again after hstep =>
      cases h
      obtain rfl := List.mem_singleton.1 ha
      exact ⟨c, again, after, hstep⟩

/-- To look for a word takes nothing. -/
theorem seesWord_stays {w : String} {c d : Cursor} {seen : Bool}
    (h : seesWord w c = .ok (seen, d)) : d = c := by
  rw [seesWord, ahead_bind] at h
  generalize c.rest = ts at h
  revert h
  split <;>
    · intro h
      cases h
      rfl

/-- A word that is read stood at the front. -/
theorem word_read {w : String} {c d : Cursor} {ts : List TokenTree}
    (h : word w c = .ok (ts, d)) : c.rest = .word w :: d.rest := by
  obtain ⟨rest, leftOver⟩ := c
  rw [word, ahead_bind] at h
  dsimp only at h
  revert h
  split
  · split
    · rename_i hv
      intro h
      cases h
      rw [hv]
    · intro h
      cases h
  · intro h
    cases h

/-- What is read of a group is read of its content. -/
theorem inside_read {b : Bracket} {inner : CodeReader α} {c d : Cursor} {a : α}
    (h : inside b inner c = .ok (a, d)) : ∃ c' d', inner c' = .ok (a, d') := by
  rw [inside, ahead_bind] at h
  generalize c.rest = ts at h
  revert h
  split
  · split
    · intro h
      rw [goTo_bind] at h
      obtain ⟨read, d', hread, h⟩ := bind_eq_ok_iff.1 h
      cases h
      exact ⟨_, d', hread⟩
    · intro h
      cases h
  · intro h
    cases h

end CodeReader

end MemberAccess.Source
