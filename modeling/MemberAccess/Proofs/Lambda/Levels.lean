import MemberAccess.Proofs.Lambda.Trail
import MemberAccess.Proofs.Lambda.Watched

/-!
# Levels and progress of the machine

From any place of the cursor where no more levels are open than may be, a reader of the machine
ends, within two calls for each level that is left and two more. Its run is orderly: the cursor goes
on only and never past the tokens, no more levels are open than may be, and no more recursions are
active. A reader that succeeds has taken a token and leaves as many levels open as there were. One
that does not is rejected: it closes no level that is not open.

## Main definitions

* `Tape.KeepsOrder`: a reader whose run is orderly.

## Main results

* `Tape.reads_type`, `Tape.reads_expr_and_operand`: the readers that recur are orderly within enough
  calls.
* `Tape.readers_keep_order`: all readers keep order.
-/

namespace MemberAccess

namespace Tape

variable {tape : Tape} {s : Cursor} {α β : Type} {post : β → Cursor → Prop}
  {active : List Recursion} {position depth lower : Nat}

section

variable (hbounds : InBounds active depth) (hfits : tape.Fits)

include hbounds hfits

/-! ### Paths and types -/

/-- Paths are read in order. -/
theorem reads_path : tape.Reads active depth (tape.path) := by
  intro position
  refine (reads_ident hbounds hfits .name position).stands_bind fun name next hlower hwithin => ?_
  refine .loop hfits (fun path position hlower hwithin => ?_) hlower hwithin name
  refine .onToken hbounds (fun hcolons => ?_) (.stop hlower hwithin _)
  refine .advance_bind hbounds hfits hcolons fun _ => ?_
  exact (reads_ident hbounds hfits .segment _).stands_bind fun name next hnext hwithin =>
    .again (by omega) hwithin _

/-- Type arguments are read a level above the type, and their end closes the level. -/
theorem Orderly.typeArgument {type : Watched String} (hdepth : depth < Lambda.nestingLimit)
    (htype : tape.Reads (.typeArgument :: active) (depth + 1) type) (hlower : lower ≤ position)
    (text : String) :
    tape.Orderly (tape.EndsTurn position (depth + 1) lower depth) ⟨position, depth + 1⟩
      (tape.typeArgument type text active ⟨position, depth + 1⟩) := by
  have hinner := hbounds.descend hdepth
  have hargument := htype.within (hbounds.push hdepth .typeArgument)
  refine (hargument position).stands_bind fun argument next hnext hwithin => ?_
  refine .peek_bind hinner ?_
  cases htoken : tape.tokenAt next with
  | none => exact .unexpected _
  | some t =>
      cases t with
      | symbol s =>
          cases s with
          | comma =>
              refine .advance_bind hinner hfits htoken fun hlt => ?_
              exact .again (by omega) hlt _
          | greater =>
              refine .advance_bind hinner hfits htoken fun hlt => ?_
              refine .ascend_bind hbounds ?_
              exact .stop (by omega) hlt _
          | _ => exact .unexpected _
      | _ => exact .unexpected _

omit hbounds in
/-- **Types are read** within two calls for each level that is left and one more. -/
theorem reads_type {calls : Nat} (hbounds : InBounds active depth)
    (hcalls : 2 * (Lambda.nestingLimit - depth) + 1 ≤ calls) :
    tape.Reads active depth (tape.type calls) := by
  induction calls generalizing active depth with
  | zero => exact absurd hcalls (Nat.not_succ_le_zero _)
  | succ calls ih =>
      intro position
      rw [Tape.type]
      refine (reads_path hbounds hfits position).stands_bind fun name next hlower hwithin => ?_
      refine .onToken hbounds (fun hless => ?_) (.stand hlower hwithin)
      refine .advance_bind hbounds hfits hless fun hlt => ?_
      refine .descend_bind hbounds hfits fun hdepth => ?_
      refine .loop hfits (fun text position hlower _ => ?_) (by omega) hlt _
      exact .typeArgument hbounds hfits hdepth
        (ih (hbounds.push hdepth .typeArgument) (by omega)) hlower text

/-! ### Operands -/

section

variable {param : String} {expr : Watched Expr} (hexpr : tape.Reads active depth expr)

include hexpr

/-- One turn of the arguments is orderly. -/
theorem Orderly.argument (hlower : lower ≤ position) (hwithin : position ≤ tape.tokens.length)
    (args : List Expr) :
    tape.Orderly (tape.EndsTurn position depth lower depth) ⟨position, depth⟩
      (tape.argument expr args active ⟨position, depth⟩) := by
  refine .onToken hbounds (fun _ => .stop hlower hwithin _) ?_
  refine (hexpr position).stands_bind fun arg next hnext hwithin => ?_
  refine .onToken hbounds (fun _ => .again hnext hwithin _) ?_
  exact (reads_expect hbounds hfits .comma next).stands_bind fun _ after hafter hwithin =>
    .again (by omega) hwithin _

/-- Calls are read in order. -/
theorem Reads.call : tape.Reads active depth (tape.call expr) := by
  intro position
  refine (reads_expect hbounds hfits .openParen position).stands_bind
    fun _ first hfirst hwithin => ?_
  have hargs : tape.Orderly (fun _ => tape.Stands first depth) ⟨first, depth⟩
      (MonadParse.loop (tape.argument expr) tape.budget [] active ⟨first, depth⟩) :=
    .loop hfits (fun args position hlower hwithin =>
      .argument hbounds hfits hexpr hlower hwithin args) (Nat.le_refl _) hwithin []
  refine hargs.stands_bind fun args last hlast _ => ?_
  exact (reads_expect hbounds hfits .closeParen last).stands_bind fun _ after hafter hwithin =>
    .stand (by omega) hwithin

/-- What begins with a name is read in order. -/
theorem Reads.named : tape.Reads active depth (tape.named param expr) := by
  intro position
  refine (reads_path hbounds hfits position).stands_bind fun name next hlower hwithin => ?_
  refine .onToken hbounds (fun _ => ?_) (.stand hlower hwithin)
  exact (hexpr.call hbounds hfits next).stands_bind fun args after hafter hwithin =>
    .stand (by omega) hwithin

/-- An expression up to the symbol that closes it. -/
theorem Reads.closed_bind {close : Symbol} {k : Expr → Watched β}
    (hk : ∀ e next, position < next → next ≤ tape.tokens.length →
      tape.Orderly post ⟨next, depth⟩ (k e active ⟨next, depth⟩)) :
    tape.Orderly post ⟨position, depth⟩
      ((expr >>= fun e => MonadParse.step (tape.expect close) >>= fun _ => k e) active
        ⟨position, depth⟩) := by
  refine (hexpr position).stands_bind fun e next hnext _ => ?_
  exact (reads_expect hbounds hfits close next).stands_bind fun _ after hafter hwithin =>
    hk e after (by omega) hwithin

/-- Operands without prefixes and applications are read in order. -/
theorem Reads.atom : tape.Reads active depth (tape.atom param expr) := by
  intro position
  rw [Tape.atom]
  refine .peek_bind hbounds ?_
  cases htoken : tape.tokenAt position with
  | none => exact .unexpected _
  | some t =>
      cases t with
      | literal l =>
          exact .advance_bind hbounds hfits htoken fun hlt => .stand (Nat.le_refl _) hlt
      | ident name => exact hexpr.named hbounds hfits position
      | symbol s =>
          cases s with
          | openParen =>
              refine .advance_bind hbounds hfits htoken fun _ => ?_
              exact hexpr.closed_bind hbounds hfits fun e next hnext hwithin =>
                .stand (by omega) hwithin
          | _ => exact .unexpected _
      | _ => exact .unexpected _

/-- One turn of the applications is orderly. -/
theorem Orderly.application (hlower : lower ≤ position) (hwithin : position ≤ tape.tokens.length)
    (left : Expr) :
    tape.Orderly (tape.EndsTurn position depth lower depth) ⟨position, depth⟩
      (tape.application expr left active ⟨position, depth⟩) := by
  refine .peek_bind hbounds ?_
  have hstop : tape.Orderly (tape.EndsTurn position depth lower depth) ⟨position, depth⟩
      ((Pure.pure (.stop left) : Watched (Turn Expr Expr)) active ⟨position, depth⟩) :=
    .stop hlower hwithin left
  cases htoken : tape.tokenAt position with
  | none => exact hstop
  | some t =>
      cases t with
      | symbol s =>
          cases s with
          | dot =>
              refine .advance_bind hbounds hfits htoken fun _ => ?_
              refine (reads_ident hbounds hfits .memberName _).stands_bind
                fun name next hnext hwithin => ?_
              refine .onToken hbounds (fun _ => ?_) (.again (by omega) hwithin _)
              exact (hexpr.call hbounds hfits next).stands_bind fun args after hafter hwithin =>
                .again (by omega) hwithin _
          | openBracket =>
              refine .advance_bind hbounds hfits htoken fun _ => ?_
              exact hexpr.closed_bind hbounds hfits fun e next hnext hwithin =>
                .again (by omega) hwithin _
          | _ => exact hstop
      | _ => exact hstop

/-- Operands with their applications are read in order. -/
theorem Reads.applied : tape.Reads active depth (tape.applied param expr) := by
  intro position
  refine (hexpr.atom hbounds hfits position).stands_bind fun e next hlower hwithin => ?_
  exact .loop hfits (fun left position hlower hwithin =>
    .application hbounds hfits hexpr hlower hwithin left) hlower hwithin e

end

/-! ### Expressions -/

/-- One turn of the operators is orderly. -/
theorem Orderly.operator {expr : Nat → Watched Expr} {type : Watched String}
    (hexpr : ∀ p, tape.Reads active depth (expr p)) (htype : tape.Reads active depth type) (p : Nat)
    (hlower : lower ≤ position) (hwithin : position ≤ tape.tokens.length) (left : Expr) :
    tape.Orderly (tape.EndsTurn position depth lower depth) ⟨position, depth⟩
      (tape.operator expr type p left active ⟨position, depth⟩) := by
  refine .peek_bind hbounds ?_
  have hstop : tape.Orderly (tape.EndsTurn position depth lower depth) ⟨position, depth⟩
      ((Pure.pure (.stop left) : Watched (Turn Expr Expr)) active ⟨position, depth⟩) :=
    .stop hlower hwithin left
  cases htoken : tape.tokenAt position with
  | none => exact hstop
  | some t =>
      by_cases hcast : t = .keywordAs
      · subst hcast
        simp only
        by_cases hlevel : castLevel < p
        · rw [if_pos hlevel]
          exact hstop
        · rw [if_neg hlevel]
          refine .advance_bind hbounds hfits htoken fun _ => ?_
          exact (htype _).stands_bind fun name next hnext hwithin => .again (by omega) hwithin _
      · simp only
        cases t.binaryOp? with
        | none => exact hstop
        | some op =>
            simp only
            by_cases hlevel : op.level < p
            · rw [if_pos hlevel]
              exact hstop
            · rw [if_neg hlevel]
              refine .advance_bind hbounds hfits htoken fun _ => ?_
              exact (hexpr _ _).stands_bind fun right next hnext hwithin =>
                .again (by omega) hwithin _

/-- An operand and the operators after it. -/
theorem Reads.operators {operand : Watched Expr} {expr : Nat → Watched Expr}
    {type : Watched String} (hoperand : tape.Reads active depth operand)
    (hexpr : ∀ p, tape.Reads active depth (expr p)) (htype : tape.Reads active depth type)
    (p : Nat) : tape.Reads active depth (tape.operators operand expr type p) := by
  intro position
  refine (hoperand position).stands_bind fun left next hlower hwithin => ?_
  exact .loop hfits (fun left position hlower hwithin =>
    .operator hbounds hfits hexpr htype p hlower hwithin left) hlower hwithin left

omit hbounds in
/-- **Expressions and operands are read** within two calls for each level that is left, and one more
or two. -/
theorem reads_expr_and_operand (param : String) (calls : Nat) :
    ∀ {active : List Recursion} {depth : Nat}, InBounds active depth →
      (∀ p, 2 * (Lambda.nestingLimit - depth) + 1 ≤ calls →
        tape.Reads active depth (tape.expr param calls p)) ∧
      (2 * (Lambda.nestingLimit - depth) + 2 ≤ calls →
        tape.Reads active depth (tape.operand param calls)) := by
  induction calls with
  | zero => exact fun _ => ⟨fun _ h => absurd h (Nat.not_succ_le_zero _),
      fun h => absurd h (Nat.not_succ_le_zero _)⟩
  | succ calls ih =>
      intro active depth hbounds
      refine ⟨fun p hcalls position => ?_, fun hcalls position => ?_⟩
      · rw [Tape.expr]
        refine .descend_bind hbounds hfits fun hdepth => ?_
        -- The readers below are on the level that is opened here, where the expression is active.
        have hinner := hbounds.push hdepth .expr
        obtain ⟨hexpr, hoperand⟩ := ih hinner
        have htype : tape.Reads (.expr :: active) (depth + 1) (tape.type calls) :=
          reads_type hfits hinner (by omega)
        have hoperators := Reads.operators hinner hfits (hoperand (by omega))
          (fun p => hexpr p (by omega)) htype p
        refine ((hoperators.within hinner) position).stands_bind fun e next hlower hwithin => ?_
        exact .ascend_bind hbounds (.stand hlower hwithin)
      · rw [Tape.operand]
        refine .peek_bind hbounds ?_
        cases htoken : tape.tokenAt position with
        | none => exact ((ih hbounds).1 0 (by omega)).applied hbounds hfits position
        | some t =>
            rw [Option.bind_some]
            cases t.unaryOp? with
            | none => exact ((ih hbounds).1 0 (by omega)).applied hbounds hfits position
            | some op =>
                refine .advance_bind hbounds hfits htoken fun _ => ?_
                refine .descend_bind hbounds hfits fun hdepth => ?_
                have hinner := hbounds.push hdepth .prefixOp
                have hoperand := (ih hinner).2 (by omega)
                refine ((hoperand.within hinner) (position + 1)).stands_bind
                  fun e next hnext hwithin => ?_
                exact .ascend_bind hbounds (.stand (by omega) hwithin)

end

/-! ### Order -/

/-- **A reader keeps order** from a place of the cursor, within the recursions that are active
there. It is run by the machine, and the same run is watched. -/
structure KeepsOrder (tape : Tape) {α : Type} (active : List Recursion) (s : Cursor)
    (reader : {m : Type → Type} → [Monad m] → [MonadParse m] → m α) : Prop where
  /-- The run that is watched is the run. -/
  outcome_eq : ((reader : Watched α) active s).outcome = (reader : Parse α) s
  /-- The run ends. It has taken a token, is not past the tokens and has closed the levels that it
  opened, or it is rejected. -/
  ends : (∃ a t, (reader : Parse α) s = some (.ok (a, t)) ∧ s.position < t.position ∧
      t.position ≤ tape.tokens.length ∧ t.depth = s.depth) ∨
    ∃ e, (reader : Parse α) s = some (.error (.rejected e))
  /-- Its moments are a trail, which ends where the run does. -/
  trail : ∃ t, tape.Trail s ((reader : Watched α) active s).moments t ∧
    ∀ a t', (reader : Parse α) s = some (.ok (a, t')) → t' = t
  /-- The cursor does not go back. -/
  onward : (s.position ::
    ((reader : Watched α) active s).moments.map (·.cursor.position)).Pairwise (· ≤ ·)
  /-- At no moment are more levels open than may be, nor more recursions active. -/
  bounded : ∀ x ∈ ((reader : Watched α) active s).moments,
    x.cursor.depth ≤ Lambda.nestingLimit ∧ x.active.length ≤ Lambda.nestingLimit

/-- A reader that takes a token keeps order. -/
theorem Reads.keepsOrder {reader : {m : Type → Type} → [Monad m] → [MonadParse m] → m α}
    (h : tape.Reads active s.depth reader)
    (hreader : (reader : Watched α).toParse active = reader) :
    tape.KeepsOrder active s reader := by
  have hrun : tape.Orderly (fun _ => tape.Stands (s.position + 1) s.depth) s
      ((reader : Watched α) active s) := h s.position
  have houtcome : ((reader : Watched α) active s).outcome = (reader : Parse α) s := hreader ▸ rfl
  obtain ⟨t, htrail, hends⟩ := hrun.ends
  rw [houtcome] at hends
  refine ⟨houtcome, ?_, ⟨t, htrail, ?_⟩, ?_, fun x hx => ?_⟩
  · rcases hends with ⟨a, hok, hforward, hwithin, hdepth⟩ | hrejected
    · exact .inl ⟨a, t, hok, hforward, hwithin, hdepth⟩
    · exact .inr hrejected
  · rintro a t' hok
    rcases hends with ⟨a', hends, -⟩ | ⟨e, hends⟩
    · cases hok.symm.trans hends
      rfl
    · cases hok.symm.trans hends
  · obtain ⟨hsorted, -⟩ := htrail.onward
    rw [← List.cons_append] at hsorted
    exact (List.pairwise_append.1 hsorted).1
  · have hbounds := htrail.inBounds x hx
    exact ⟨hbounds.depth_le, Nat.le_trans hbounds.active_le hbounds.depth_le⟩

/-- **All readers keep order,** from any place of the cursor where no more levels are open than may
be and no more recursions are active than levels are open. Two calls for each level that is left and
two more suffice. -/
theorem readers_keep_order (hfits : tape.Fits) (param : String)
    (hactive : active.length ≤ s.depth) (hdepth : s.depth ≤ Lambda.nestingLimit) {calls : Nat}
    (hcalls : 2 * (Lambda.nestingLimit - s.depth) + 2 ≤ calls) :
    (∀ p, tape.KeepsOrder active s (tape.expr param calls p)) ∧
      tape.KeepsOrder active s (tape.operand param calls) ∧
      tape.KeepsOrder active s (tape.applied param (tape.expr param calls 0)) ∧
      tape.KeepsOrder active s (tape.named param (tape.expr param calls 0)) ∧
      tape.KeepsOrder active s (tape.call (tape.expr param calls 0)) ∧
      tape.KeepsOrder active s tape.path ∧
      tape.KeepsOrder active s (tape.type calls) := by
  have hbounds : InBounds active s.depth := ⟨hactive, hdepth⟩
  obtain ⟨hexprs, hoperand⟩ := reads_expr_and_operand hfits param calls hbounds
  have hexpr := fun p => hexprs p (Nat.le_of_succ_le hcalls)
  refine ⟨fun p => (hexpr p).keepsOrder ?_, (hoperand hcalls).keepsOrder ?_,
    ((hexpr 0).applied hbounds hfits).keepsOrder ?_, ((hexpr 0).named hbounds hfits).keepsOrder ?_,
    ((hexpr 0).call hbounds hfits).keepsOrder ?_, (reads_path hbounds hfits).keepsOrder ?_,
    (reads_type hfits hbounds (Nat.le_of_succ_le hcalls)).keepsOrder ?_⟩
  · exact Watched.toParse_expr tape param active calls p
  · exact Watched.toParse_operand tape param active calls
  · rw [Watched.toParse_applied, Watched.toParse_expr]
  · rw [Watched.toParse_named, Watched.toParse_expr]
  · rw [Watched.toParse_call, Watched.toParse_expr]
  · exact Watched.toParse_path tape active
  · exact Watched.toParse_type tape active calls

/-- The tokens of `-(x)`. -/
def negated : Tape where
  capacity := 65536
  budget := 5
  tokens := [⟨.symbol .minus, 0, 1⟩, ⟨.symbol .openParen, 1, 2⟩, ⟨.ident "x", 2, 3⟩,
    ⟨.symbol .closeParen, 3, 4⟩]
  size := 4

/-- With three levels left, `-(x)` is read, and at a moment of the run all levels are open and as
many recursions are active. -/
theorem negated_keeps_order :
    negated.Fits ∧ (List.replicate 125 Recursion.expr).length ≤ 125 ∧
      125 ≤ Lambda.nestingLimit ∧ 2 * (Lambda.nestingLimit - 125) + 2 ≤ 8 ∧
      negated.KeepsOrder (List.replicate 125 .expr) ⟨0, 125⟩ (negated.expr "x" 8 0) ∧
      (negated.expr "x" 8 0 : Parse _) ⟨0, 125⟩ =
        some (.ok (.unary .negate (.parameter "x"), ⟨4, 125⟩)) ∧
      ∃ x ∈ ((negated.expr "x" 8 0 : Watched _) (List.replicate 125 .expr) ⟨0, 125⟩).moments,
        x.cursor.depth = Lambda.nestingLimit ∧ x.active.length = Lambda.nestingLimit := by
  have hfits : negated.Fits := ⟨by decide, by decide, by decide⟩
  have hactive : (List.replicate 125 Recursion.expr).length ≤ 125 :=
    Nat.le_of_eq List.length_replicate
  have hdepth : 125 ≤ Lambda.nestingLimit := by decide
  have hcalls : 2 * (Lambda.nestingLimit - 125) + 2 ≤ 8 := by decide
  obtain ⟨hexpr, -⟩ := readers_keep_order hfits "x" (s := ⟨0, 125⟩) hactive hdepth hcalls
  exact ⟨hfits, hactive, hdepth, hcalls, hexpr 0, rfl, by decide +kernel⟩

/-- With two levels left, the expression between parentheses finds none. -/
example : (negated.expr "x" 8 0 : Parse _) ⟨0, 126⟩ = some (.error (.rejected ⟨2, .tooDeep⟩)) :=
  rfl

end Tape

end MemberAccess
