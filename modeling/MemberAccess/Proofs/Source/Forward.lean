import Mathlib.Data.List.Infix
import MemberAccess.Source.Type

/-!
# Readers of code go ahead

What a reader leaves to be read is an end of what was to be read before it, and a leftover in a
group stays the first that was found. Both hold of every reader, since its parts are put together
by a few combinators. The readers of single tokens are looked at one by one; of the others nothing
is needed but the names of their parts.

## Main definitions

* `Cursor.Leads`: from one place in code to a later one.
* `Forward`: readers that only go ahead.
* `CodeLayer.IsForward`: layers of such readers.

## Main results

* `Forward.repeated`, `Forward.inside`: the combinators keep it.
* `Forward.typeText`: types are read forward.
-/

namespace MemberAccess.Source

-- The size that is counted for an instance doubles with each step of a chain of choices.
set_option synthInstance.maxSize 100000

variable {α β ε : Type}

/-! ### Places in code -/

/-- **Nothing is taken back on the way from one place to another:** what is still to be read was to
be read before, and a leftover that was found stays the first. -/
structure Cursor.Leads (c d : Cursor) : Prop where
  rest : d.rest <:+ c.rest
  leftOver : ∀ b ∈ c.leftOver, b ∈ d.leftOver

namespace Cursor.Leads

variable {c d e : Cursor}

theorem refl (c : Cursor) : c.Leads c := ⟨List.suffix_rfl, fun _ h => h⟩

/-- To go forward twice is to go forward. -/
theorem trans (h : c.Leads d) (h' : d.Leads e) : c.Leads e :=
  ⟨h'.rest.trans h.rest, fun b hb => h'.leftOver b (h.leftOver b hb)⟩

theorem goTo {ts : List TokenTree} (h : ts <:+ c.rest) : c.Leads { c with rest := ts } :=
  ⟨h, fun _ h => h⟩

/-- Without a leftover at the end there was none before. -/
theorem leftOver_eq_none (h : c.Leads d) (hd : d.leftOver = none) : c.leftOver = none :=
  Option.eq_none_iff_forall_not_mem.2 fun b hb => by
    have hmem := h.leftOver b hb
    rw [hd] at hmem
    cases hmem

end Cursor.Leads

/-- What follows marks is an end of the tokens. -/
theorem afterMarks?_suffix {cs : List Char} {ts rest : List TokenTree}
    (h : afterMarks? cs ts = some rest) : rest <:+ ts := by
  fun_induction afterMarks? cs ts with
  | case1 ts => cases h; exact List.suffix_rfl
  | case2 c more d joined ts hc ih => exact (ih h).trans (List.suffix_cons _ _)
  | case3 => cases h
  | case4 => cases h

/-! ### Readers that go ahead -/

/-- A value is read by one reader after another. -/
theorem bind_eq_ok_iff {r : StateT Cursor (Except ε) α} {f : α → StateT Cursor (Except ε) β}
    {c d : Cursor} {b : β} :
    (r >>= f) c = .ok (b, d) ↔ ∃ a e, r c = .ok (a, e) ∧ f a e = .ok (b, d) := by
  change (Except.bind (r c) fun p => f p.1 p.2) = _ ↔ _
  cases r c with
  | error e => simp [Except.bind]
  | ok p =>
      refine ⟨fun h => ⟨p.1, p.2, rfl, h⟩, ?_⟩
      rintro ⟨a, e, hp, hf⟩
      cases hp
      exact hf

/-- **A reader that only goes ahead,** whatever its errors are. -/
class Forward (r : StateT Cursor (Except ε) α) : Prop where
  leads : ∀ {c d : Cursor} {a : α}, r c = .ok (a, d) → c.Leads d

namespace Forward

/-! ### Combinators -/

section

variable (r : StateT Cursor (Except ε) α) (f : α → StateT Cursor (Except ε) β) [Forward r]

instance pure (a : α) : Forward (Pure.pure a : StateT Cursor (Except ε) α) where
  leads h := by cases h; exact .refl _

instance throw (e : ε) : Forward (throw e : StateT Cursor (Except ε) α) where
  leads h := nomatch h

instance bind [∀ a, Forward (f a)] : Forward (r >>= f) where
  leads h := by
    obtain ⟨a, e, hr, hf⟩ := bind_eq_ok_iff.1 h
    exact (leads hr).trans (leads hf)

instance ite (p : Prop) [Decidable p] (s : StateT Cursor (Except ε) α) [Forward s] :
    Forward (if p then r else s) := by
  split <;> infer_instance

variable {r f} in
/-- A reader that goes forward may be gone on with by readers that do. -/
theorem andThen (h : ∀ a, Forward (f a)) : Forward (r >>= f) :=
  bind r f

end

instance reject (f : Fault) : Forward (CodeReader.reject f : CodeReader α) :=
  throw f

/-- **Reading again and again goes ahead** if each turn does. -/
instance repeated (step : CodeReader (α × Bool)) [Forward step] :
    Forward (CodeReader.repeated step) where
  leads {c d a} h := by
    fun_induction CodeReader.repeated step c generalizing d a with
    | case1 | case2 => cases h
    | case3 c a again after hstep _ more last _ ih =>
        cases h
        exact (leads hstep).trans (ih ‹_›)
    | case4 c a again after hstep =>
        cases h
        exact leads hstep

instance gathered (step : CodeReader (List TokenTree × Bool)) [Forward step] :
    Forward (CodeReader.gathered step) := by
  unfold CodeReader.gathered; infer_instance

instance anyM (look : α → CodeReader Bool) [∀ a, Forward (look a)] (as : List α) :
    Forward (as.anyM look) := by
  induction as with
  | nil => exact Forward.pure false
  | cons a more ih =>
      unfold List.anyM
      refine andThen fun found => ?_
      cases found <;> infer_instance

instance forIn {σ : Type} (as : List α) (state : σ)
    (body : α → σ → CodeReader (ForInStep σ)) [∀ a s, Forward (body a s)] :
    Forward (forIn as state body) := by
  induction as generalizing state with
  | nil => exact Forward.pure state
  | cons a more ih =>
      rw [List.forIn_cons]
      refine andThen fun after => ?_
      cases after <;> infer_instance

/-! ### Looking ahead -/

instance ahead : Forward CodeReader.ahead where
  leads h := by cases h; exact .refl _

/-- A reader that goes ahead where `ts` is still to be read. -/
def From (ts : List TokenTree) (r : CodeReader α) : Prop :=
  ∀ {c d : Cursor} {a : α}, c.rest = ts → r c = .ok (a, d) → c.Leads d

/-- Readers that look at the tokens first go ahead if they do for all tokens. -/
theorem looking {f : List TokenTree → CodeReader α} (h : ∀ ts, From ts (f ts)) :
    Forward (CodeReader.ahead >>= f) where
  leads hr := h _ rfl hr

theorem from_all (ts : List TokenTree) (r : CodeReader α) [Forward r] : From ts r :=
  fun _ => leads

/-- Once it has gone forward, a reader may read on. -/
theorem from_goTo {ts rest : List TokenTree} (h : rest <:+ ts) (r : CodeReader α) [Forward r] :
    From ts (CodeReader.goTo rest >>= fun _ => r) := by
  rintro c d a rfl hr
  exact (Cursor.Leads.goTo h).trans (leads (r := r) hr)

instance atEnd : Forward CodeReader.atEnd := by unfold CodeReader.atEnd; infer_instance

instance sees (s : String) : Forward (CodeReader.sees s) := by
  unfold CodeReader.sees; infer_instance

instance seesWord (w : String) : Forward (CodeReader.seesWord w) := by
  unfold CodeReader.seesWord
  refine andThen fun ts => ?_
  split <;> infer_instance

instance seesIdentifier : Forward CodeReader.seesIdentifier := by
  unfold CodeReader.seesIdentifier
  refine andThen fun ts => ?_
  split <;> infer_instance

instance seesLifetime : Forward CodeReader.seesLifetime := by
  unfold CodeReader.seesLifetime; infer_instance

instance seesGroup (b : Bracket) : Forward (CodeReader.seesGroup b) := by
  unfold CodeReader.seesGroup; infer_instance

instance want (what : Wanted) : Forward (CodeReader.want what : CodeReader α) := by
  unfold CodeReader.want; infer_instance

/-! ### One token -/

instance mark (s : String) : Forward (CodeReader.mark s) := by
  unfold CodeReader.mark
  refine looking fun ts => ?_
  split
  · rename_i rest hrest
    exact from_goTo (afterMarks?_suffix hrest) _
  · exact from_all _ _

instance markIf (s : String) : Forward (CodeReader.markIf s) := by
  unfold CodeReader.markIf; infer_instance

instance word (w : String) : Forward (CodeReader.word w) := by
  unfold CodeReader.word
  refine looking fun ts => ?_
  split
  · split
    · exact from_goTo (List.suffix_cons _ _) _
    · exact from_all _ _
  · exact from_all _ _

instance wordIf (w : String) : Forward (CodeReader.wordIf w) := by
  unfold CodeReader.wordIf; infer_instance

instance identifier : Forward CodeReader.identifier := by
  unfold CodeReader.identifier
  refine looking fun ts => ?_
  split
  · split
    · exact from_all _ _
    · exact from_goTo (List.suffix_cons _ _) _
  · exact from_all _ _

instance segment : Forward CodeReader.segment := by
  unfold CodeReader.segment
  refine looking fun ts => ?_
  split
  · exact from_goTo (List.suffix_cons _ _) _
  · exact from_all _ _

instance lifetime : Forward CodeReader.lifetime := by
  unfold CodeReader.lifetime
  refine looking fun ts => ?_
  split
  · exact from_goTo (List.suffix_cons _ _) _
  · exact from_all _ _

instance stringLiteral : Forward CodeReader.stringLiteral := by
  unfold CodeReader.stringLiteral
  refine looking fun ts => ?_
  split
  · split
    · exact from_goTo (List.suffix_cons _ _) _
    · exact from_all _ _
  · exact from_all _ _

instance anyGroup : Forward CodeReader.anyGroup := by
  unfold CodeReader.anyGroup
  refine looking fun ts => ?_
  split
  · exact from_goTo (List.suffix_cons _ _) _
  · exact from_all _ _

/-! ### Groups -/

/-- **The content of a group is left behind as a whole,** whatever of it was read. -/
instance inside (b : Bracket) (inner : CodeReader α) [Forward inner] :
    Forward (CodeReader.inside b inner) := by
  unfold CodeReader.inside
  refine looking fun ts => ?_
  split
  · split
    · rename_i content rest _
      rintro c d a hts h
      obtain ⟨_, e, hgo, h⟩ := bind_eq_ok_iff.1 h
      cases hgo
      obtain ⟨a', e, hinner, h⟩ := bind_eq_ok_iff.1 h
      cases h
      refine ⟨hts ▸ List.suffix_cons _ _, fun b hb => ?_⟩
      have hinside : b ∈ e.leftOver := (leads hinner).leftOver b hb
      simp [Option.mem_def.1 hinside]
    · exact from_all _ _
  · exact from_all _ _

instance wrapped (b : Bracket) (inner : CodeReader (List TokenTree)) [Forward inner] :
    Forward (CodeReader.wrapped b inner) := by
  unfold CodeReader.wrapped; infer_instance

instance commaSeparated (item : CodeReader (List TokenTree)) [Forward item] :
    Forward (CodeReader.commaSeparated item) := by
  unfold CodeReader.commaSeparated; infer_instance

instance attributes : Forward CodeReader.attributes := by
  unfold CodeReader.attributes; infer_instance

/-! ### Paths -/

instance seesLiteral : Forward CodeReader.seesLiteral := by
  unfold CodeReader.seesLiteral
  refine andThen fun ts => ?_
  split <;> infer_instance

instance seesConstant : Forward CodeReader.seesConstant := by
  unfold CodeReader.seesConstant; infer_instance

instance key : Forward CodeReader.key := by
  unfold CodeReader.key
  refine andThen fun leading => looking fun ts => ?_
  dsimp only
  split
  · exact from_goTo (List.suffix_cons _ _) _
  · exact from_all _ _
  · exact from_all _ _

instance constant : Forward CodeReader.constant := by
  unfold CodeReader.constant
  refine looking fun ts => ?_
  split
  · exact from_goTo ((List.suffix_cons _ _).trans (List.suffix_cons _ _)) _
  · exact from_goTo (List.suffix_cons _ _) _
  · exact from_goTo (List.suffix_cons _ _) _
  · exact from_all _ _

end Forward

/-- **A layer of readers that only go ahead.** -/
class CodeLayer.IsForward (l : CodeLayer) : Prop where
  type : ∀ plus, Forward (l.type plus)
  bound : ∀ captures constant, Forward (l.bound captures constant)
  expression : Forward l.expression

attribute [instance] CodeLayer.IsForward.type CodeLayer.IsForward.bound
  CodeLayer.IsForward.expression

namespace Forward

variable (below : CodeLayer) [below.IsForward]

instance boundsUntil (stops : List String) : Forward (CodeReader.boundsUntil stops below) := by
  unfold CodeReader.boundsUntil; infer_instance

instance argument : Forward (CodeReader.argument below) := by
  unfold CodeReader.argument; dsimp only; infer_instance

instance arguments : Forward (CodeReader.arguments below) := by
  unfold CodeReader.arguments; infer_instance

instance seesArguments (inExpression : Bool) : Forward (CodeReader.seesArguments inExpression) := by
  unfold CodeReader.seesArguments; infer_instance

instance pathSegment (inExpression : Bool) :
    Forward (CodeReader.pathSegment inExpression below) := by
  unfold CodeReader.pathSegment; infer_instance

instance pathSegments (inExpression : Bool) :
    Forward (CodeReader.pathSegments inExpression below) := by
  unfold CodeReader.pathSegments; infer_instance

instance path (inExpression : Bool) : Forward (CodeReader.path inExpression below) := by
  unfold CodeReader.path; infer_instance

instance qualifiedPath (inExpression : Bool) :
    Forward (CodeReader.qualifiedPath inExpression below) := by
  unfold CodeReader.qualifiedPath; dsimp only; infer_instance

/-! ### Expressions -/

instance operatorAmong (operators : List String) :
    Forward (CodeReader.operatorAmong operators) := by
  unfold CodeReader.operatorAmong
  refine andThen fun found => ?_
  dsimp only
  split <;> infer_instance

instance remainder : Forward CodeReader.remainder := by
  unfold CodeReader.remainder
  exact looking fun ts => from_goTo (List.nil_suffix) _

instance elements : Forward (CodeReader.elements below) := by
  unfold CodeReader.elements; infer_instance

instance pathExpression : Forward (CodeReader.pathExpression below) := by
  unfold CodeReader.pathExpression; infer_instance

instance seesPath : Forward CodeReader.seesPath := by
  unfold CodeReader.seesPath; infer_instance

instance atom : Forward (CodeReader.atom below) := by
  unfold CodeReader.atom; infer_instance

instance member : Forward (CodeReader.member below) := by
  unfold CodeReader.member
  refine looking fun ts => ?_
  split
  · exact from_goTo (List.suffix_cons _ _) _
  · exact from_all _ _
  · exact from_all _ _

instance applications : Forward (CodeReader.applications below) := by
  unfold CodeReader.applications; infer_instance

instance operand : Forward (CodeReader.operand below) := by
  unfold CodeReader.operand; infer_instance

instance expression : Forward (CodeReader.expression below) := by
  unfold CodeReader.expression; dsimp only; infer_instance

/-! ### Types -/

instance outlived : Forward CodeReader.outlived := by
  unfold CodeReader.outlived; infer_instance

instance parameter : Forward (CodeReader.parameter below) := by
  unfold CodeReader.parameter; dsimp only; infer_instance

instance binder : Forward (CodeReader.binder below) := by
  unfold CodeReader.binder; dsimp only; infer_instance

instance binderIf : Forward (CodeReader.binderIf below) := by
  unfold CodeReader.binderIf; infer_instance

instance result : Forward (CodeReader.result below) := by
  unfold CodeReader.result; infer_instance

instance constancy (constant : Bool) : Forward (CodeReader.constancy constant) := by
  unfold CodeReader.constancy; dsimp only; infer_instance

instance traitPath : Forward (CodeReader.traitPath below) := by
  unfold CodeReader.traitPath; dsimp only; infer_instance

instance trait (constant : Bool) : Forward (CodeReader.trait constant below) := by
  unfold CodeReader.trait; dsimp only; infer_instance

instance capture : Forward CodeReader.capture := by
  unfold CodeReader.capture; dsimp only; infer_instance

instance bound (captures constant : Bool) : Forward (CodeReader.bound below captures constant) := by
  unfold CodeReader.bound; dsimp only; infer_instance

instance seesBound (constant : Bool) : Forward (CodeReader.seesBound constant) := by
  unfold CodeReader.seesBound; dsimp only; infer_instance

instance bounds (plus captures constant : Bool) :
    Forward (CodeReader.bounds below plus captures constant) := by
  unfold CodeReader.bounds; dsimp only; infer_instance

instance objectBounds (plus : Bool) : Forward (CodeReader.objectBounds below plus) := by
  unfold CodeReader.objectBounds; infer_instance

instance furtherBounds : Forward (CodeReader.furtherBounds below) := by
  unfold CodeReader.furtherBounds; infer_instance

instance seesNamed : Forward CodeReader.seesNamed := by
  unfold CodeReader.seesNamed; infer_instance

instance parameters : Forward (CodeReader.parameters below) := by
  unfold CodeReader.parameters; dsimp only; infer_instance

instance function : Forward (CodeReader.function below) := by
  unfold CodeReader.function
  refine andThen fun front => andThen fun foreign => andThen fun ts => ?_
  dsimp only
  split <;> infer_instance

instance tuple : Forward (CodeReader.tuple below) := by
  unfold CodeReader.tuple; dsimp only; infer_instance

instance bracketed (plus : Bool) : Forward (CodeReader.bracketed below plus) := by
  unfold CodeReader.bracketed; dsimp only; infer_instance

instance ofPath (lifetimes : List TokenTree) (plus : Bool) :
    Forward (CodeReader.ofPath below lifetimes plus) := by
  unfold CodeReader.ofPath; dsimp only; infer_instance

instance sequence : Forward (CodeReader.sequence below) := by
  unfold CodeReader.sequence; dsimp only; infer_instance

instance pointer : Forward (CodeReader.pointer below) := by
  unfold CodeReader.pointer; dsimp only; infer_instance

instance reference : Forward (CodeReader.reference below) := by
  unfold CodeReader.reference; dsimp only; infer_instance

instance object (plus : Bool) : Forward (CodeReader.object below plus) := by
  unfold CodeReader.object; dsimp only; infer_instance

instance choice (plus : Bool) : Forward (CodeReader.choice below plus) := by
  unfold CodeReader.choice; infer_instance

instance seesTypePath : Forward CodeReader.seesTypePath := by
  unfold CodeReader.seesTypePath; infer_instance

instance seesFunction : Forward CodeReader.seesFunction := by
  unfold CodeReader.seesFunction; infer_instance

instance type (plus : Bool) : Forward (CodeReader.type below plus) := by
  unfold CodeReader.type; dsimp only; infer_instance

end Forward

/-! ### Layers -/

namespace CodeLayer

instance isForward_bottom : bottom.IsForward :=
  ⟨fun _ => Forward.want _, fun _ _ => Forward.want _, Forward.want _⟩

instance isForward_next (below : CodeLayer) [below.IsForward] : below.next.IsForward :=
  ⟨Forward.type below, Forward.bound below, Forward.expression below⟩

instance isForward_ofDepth (depth : Nat) : (ofDepth depth).IsForward := by
  induction depth with
  | zero => exact isForward_next bottom
  | succ depth ih => exact isForward_next (ofDepth depth)

end CodeLayer

/-- **Types are read forward.** -/
instance Forward.typeText : Forward CodeReader.typeText := by
  unfold CodeReader.typeText; infer_instance

end MemberAccess.Source
