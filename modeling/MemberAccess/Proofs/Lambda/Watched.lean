import MemberAccess.Lambda.Watched

/-!
# Watching changes nothing

A run that is watched takes the steps of the machine: without its moments it is the run of the
machine, from every cursor and whatever is active. This holds of a step and of what is composed of
steps, and so of every reader.

## Main results

* `Watched.toParse_bind`, `Watched.toParse_within`, `Watched.toParse_loop`: the steps of what is
  composed.
* `Watched.toParse_type`, `Watched.toParse_operand`, `Watched.toParse_expr`: the steps of the
  readers.
-/

namespace MemberAccess

open MonadParse (step within loop)

namespace Watched

variable {α β : Type}

/-! ### Compositions -/

/-- A value takes no step. -/
@[simp] theorem toParse_pure (a : α) (active : List Recursion) :
    (pure a : Watched α).toParse active = pure a :=
  rfl

/-- The steps of one run and then of another. -/
@[simp] theorem toParse_bind (m : Watched α) (k : α → Watched β) (active : List Recursion) :
    (m >>= k).toParse active = m.toParse active >>= fun a => (k a).toParse active := by
  funext cursor
  have hbind : (m >>= k).toParse active cursor =
      ((m active cursor).andThen fun a cursor => k a active cursor).outcome := rfl
  have hparse : (m.toParse active >>= fun a => (k a).toParse active) cursor =
      Option.bind (m active cursor).outcome
        (ExceptT.bindCont fun r => (k r.1).toParse active r.2) := rfl
  rw [hbind, hparse, Course.andThen]
  rcases (m active cursor).outcome with _ | _ | _ <;> rfl

/-- A step that is watched is the step. -/
@[simp] theorem toParse_step (m : Parse α) (active : List Recursion) :
    (step m : Watched α).toParse active = m := by
  funext cursor
  have hstep : (step m : Watched α).toParse active cursor =
      (Course.ofStep active (m cursor)).outcome := rfl
  rw [hstep]
  rcases (m cursor : Option (Except Halt (α × Tape.Cursor))) with _ | _ | _ <;> rfl

/-- Within a recursion the steps are taken while it is active. -/
@[simp] theorem toParse_within (recursion : Recursion) (m : Watched α)
    (active : List Recursion) :
    (within recursion m).toParse active = m.toParse (recursion :: active) :=
  rfl

/-- The steps of a choice are those of what is chosen. -/
@[simp] theorem toParse_ite (c : Prop) [Decidable c] (m n : Watched α)
    (active : List Recursion) :
    (if c then m else n).toParse active = if c then m.toParse active else n.toParse active :=
  apply_ite (·.toParse active) c m n

/-- The steps of a loop are those of its turns. -/
@[simp] theorem toParse_loop (turn : β → Watched (Turn α β)) (budget : Nat) (b : β)
    (active : List Recursion) :
    (loop turn budget b).toParse active = loop (fun b => (turn b).toParse active) budget b := by
  induction budget generalizing b with
  | zero => exact toParse_step _ _
  | succ budget ih =>
      rw [loop, loop, toParse_bind]
      refine congrArg _ (funext fun next => ?_)
      cases next with
      | again b => exact ih b
      | stop a => rfl

/-! ### Readers -/

section

variable (tape : Tape) (param : String) (active : List Recursion)

/-- A watched turn of the segments runs as the turn. -/
@[simp] theorem toParse_furtherSegment (path : String) :
    (tape.furtherSegment path : Watched _).toParse active = tape.furtherSegment path := by
  simp only [Tape.furtherSegment, toParse_bind, toParse_step, toParse_ite, toParse_pure,
    Parse.step_eq]

/-- The watched reader of paths runs as the reader. -/
@[simp] theorem toParse_path : (tape.path : Watched _).toParse active = tape.path := by
  simp only [Tape.path, toParse_bind, toParse_step, toParse_loop, toParse_furtherSegment,
    Parse.step_eq]

/-- A watched turn of type arguments runs as the turn, with the recursion noted. -/
@[simp] theorem toParse_typeArgument (type : Watched String) (text : String) :
    (tape.typeArgument type text).toParse active =
      tape.typeArgument (type.toParse (.typeArgument :: active)) text := by
  simp only [Tape.typeArgument, toParse_bind, toParse_step, toParse_within, Parse.step_eq,
    Parse.within_eq]
  refine congrArg _ (funext fun argument => congrArg _ (funext fun t => ?_))
  split <;> simp only [toParse_bind, toParse_step, toParse_pure]

/-- The watched reader of types runs as the reader. -/
@[simp] theorem toParse_type (calls : Nat) :
    (tape.type calls : Watched _).toParse active = tape.type calls := by
  induction calls generalizing active with
  | zero => exact toParse_step _ _
  | succ calls ih =>
      simp only [Tape.type, toParse_bind, toParse_step, toParse_ite, toParse_loop, toParse_path,
        toParse_typeArgument, toParse_pure, ih, Parse.step_eq]

variable (expr : Watched Expr)

/-- A watched turn of the arguments runs as the turn. -/
@[simp] theorem toParse_argument (args : List Expr) :
    (tape.argument expr args).toParse active = tape.argument (expr.toParse active) args := by
  simp only [Tape.argument, toParse_bind, toParse_step, toParse_ite, toParse_pure, Parse.step_eq]

/-- The watched reader of calls runs as the reader. -/
@[simp] theorem toParse_call :
    (tape.call expr).toParse active = tape.call (expr.toParse active) := by
  simp only [Tape.call, toParse_bind, toParse_step, toParse_loop, toParse_argument, toParse_pure,
    Parse.step_eq]

/-- So does that of what begins with a name. -/
@[simp] theorem toParse_named :
    (tape.named param expr).toParse active = tape.named param (expr.toParse active) := by
  simp only [Tape.named, toParse_bind, toParse_step, toParse_ite, toParse_path, toParse_call,
    toParse_pure, Parse.step_eq]

/-- So does that of operands without prefixes and applications. -/
@[simp] theorem toParse_atom :
    (tape.atom param expr).toParse active = tape.atom param (expr.toParse active) := by
  simp only [Tape.atom, toParse_bind, toParse_step, Parse.step_eq]
  refine congrArg _ (funext fun t => ?_)
  split <;> simp only [toParse_bind, toParse_step, toParse_named, toParse_pure]

/-- A watched turn of the applications runs as the turn. -/
@[simp] theorem toParse_application (left : Expr) :
    (tape.application expr left).toParse active =
      tape.application (expr.toParse active) left := by
  simp only [Tape.application, toParse_bind, toParse_step, Parse.step_eq]
  refine congrArg _ (funext fun t => ?_)
  split <;> simp only [toParse_bind, toParse_step, toParse_ite, toParse_call, toParse_pure]

/-- The watched reader of operands with applications runs as the reader. -/
@[simp] theorem toParse_applied :
    (tape.applied param expr).toParse active = tape.applied param (expr.toParse active) := by
  simp only [Tape.applied, toParse_bind, toParse_atom, toParse_loop, toParse_application]

end

section

variable (tape : Tape) (param : String) (active : List Recursion)

/-- A watched turn of the operators runs as the turn. -/
@[simp] theorem toParse_operator (expr : Nat → Watched Expr) (type : Watched String) (p : Nat)
    (left : Expr) :
    (tape.operator expr type p left).toParse active =
      tape.operator (fun p => (expr p).toParse active) (type.toParse active) p left := by
  simp only [Tape.operator, toParse_bind, toParse_step, Parse.step_eq]
  refine congrArg _ (funext fun t => ?_)
  cases t with
  | none => rfl
  | some t =>
      by_cases hcast : t = .keywordAs
      · subst hcast
        simp only [toParse_ite, toParse_bind, toParse_step, toParse_pure]
      · simp only
        cases t.binaryOp? with
        | none => rfl
        | some op => simp only [toParse_ite, toParse_bind, toParse_step, toParse_pure]

/-- The watched reader of operators runs as the reader. -/
@[simp] theorem toParse_operators (operand : Watched Expr) (expr : Nat → Watched Expr)
    (type : Watched String) (p : Nat) :
    (tape.operators operand expr type p).toParse active =
      tape.operators (operand.toParse active) (fun p => (expr p).toParse active)
        (type.toParse active) p := by
  simp only [Tape.operators, toParse_bind, toParse_loop, toParse_operator]

/-- **Without their moments, the readers of expressions and of operands** are the readers. -/
theorem toParse_expr_and_operand (calls : Nat) :
    (∀ p active, (tape.expr param calls p : Watched _).toParse active =
        tape.expr param calls p) ∧
      ∀ active, (tape.operand param calls : Watched _).toParse active =
        tape.operand param calls := by
  induction calls with
  | zero => exact ⟨fun _ _ => toParse_step _ _, fun _ => toParse_step _ _⟩
  | succ calls ih =>
      obtain ⟨hexpr, hoperand⟩ := ih
      refine ⟨fun p active => ?_, fun active => ?_⟩
      · simp only [Tape.expr, toParse_bind, toParse_step, toParse_within, toParse_operators,
          toParse_type, toParse_pure, hexpr, hoperand, Parse.step_eq, Parse.within_eq]
      · simp only [Tape.operand, toParse_bind, toParse_step, Parse.step_eq]
        refine congrArg _ (funext fun t => ?_)
        cases t.bind Token.unaryOp? with
        | none => simp only [toParse_applied, hexpr]
        | some op =>
            simp only [toParse_bind, toParse_step, toParse_within, toParse_pure, hoperand,
              Parse.within_eq]

/-- The watched reader of expressions runs as the reader. -/
@[simp] theorem toParse_expr (calls p : Nat) :
    (tape.expr param calls p : Watched _).toParse active = tape.expr param calls p :=
  (toParse_expr_and_operand tape param calls).1 p active

/-- The watched reader of operands runs as the reader. -/
@[simp] theorem toParse_operand (calls : Nat) :
    (tape.operand param calls : Watched _).toParse active = tape.operand param calls :=
  (toParse_expr_and_operand tape param calls).2 active

end

end Watched

end MemberAccess
