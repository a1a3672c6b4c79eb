import MemberAccess.Proofs.Lambda.Bytes

/-!
# Reading with a cursor is reading

The machine and the readers of tokens take the same turns. Where the cursor is at some tokens and
some levels are open, a reader of the machine does what the reader of the layer does that may open
the levels that are left: it ends, with the cursor at the tokens that the reader leaves and with as
many levels open as before, or it is rejected at the token that the reader rejects. In between no
word is too large: the cursor does not go beyond the tokens, of which there are fewer than bytes,
and no more levels are open than may be. Nor is the budget spent. Each turn of a loop consumes a
token, and calls that do not end open levels, at least one by every other call.

## Main definitions

* `Tape.At`: a position, and the tokens from there on.
* `Tape.Agrees`: the end of a run that agrees with a reading.
* `Tape.Turns`: the end of a turn of a loop that agrees with one.
* `Tape.AgreesAt`: a layer that the machine agrees with.

## Main results

* `Tape.Meets.loop`: a loop agrees with a reading if its turns do.
* `Tape.agreesAt_ofRoom`: the machine agrees with the layer of the levels that are left.
* `Lambda.parse_eq`: the machine reads what is read, and crashes never.
-/

namespace MemberAccess

open Reading (plain)

/-! ### Runs -/

namespace Parse

variable {α β : Type}

/-- What follows a step goes on from where it ended. -/
theorem bind_of_ok {m : Parse α} {cursor cursor' : Tape.Cursor} {a : α}
    (h : m cursor = some (.ok (a, cursor'))) (k : α → Parse β) :
    (m >>= k) cursor = k a cursor' := by
  have hbind : (m >>= k) cursor =
      Option.bind (m cursor) (ExceptT.bindCont fun r => k r.1 r.2) := rfl
  rw [hbind, h]
  rfl

/-- The value of a run is that of its end. -/
theorem run'_eq (m : Parse α) (cursor : Tape.Cursor) :
    (StateT.run' m cursor).run =
      Option.map (Except.map Prod.fst) (m cursor : Option (Except Halt (α × Tape.Cursor))) := by
  have hrun : ∀ run : Option (Except Halt (α × Tape.Cursor)),
      (Prod.fst <$> (ExceptT.mk run : ExceptT Halt Option (α × Tape.Cursor))).run =
        run.map (Except.map Prod.fst) := by
    intro run
    rcases run with _ | _ | _ <;> rfl
  exact hrun (m cursor)

/-- Nothing follows a step that ends a run. -/
theorem bind_of_error {m : Parse α} {cursor : Tape.Cursor} {halt : Halt}
    (h : m cursor = some (.error halt)) (k : α → Parse β) :
    (m >>= k) cursor = some (.error halt) := by
  have hbind : (m >>= k) cursor =
      Option.bind (m cursor) (ExceptT.bindCont fun r => k r.1 r.2) := rfl
  rw [hbind, h]
  rfl

end Parse

/-- A change of the value behind a reading. -/
theorem map_bind {ε α β γ : Type} (x : Except ε α) (g : α → Except ε β) (f : β → γ) :
    (x.bind g).map f = x.bind fun a => (g a).map f := by
  cases x <;> rfl

/-- Another token than a symbol is rejected in its place. -/
theorem Reader.plain_symbol_of_ne {s : Symbol} {ts : List Token}
    (h : ts.head? ≠ some (.symbol s)) :
    plain (symbol s ts) = .error (.expected (.symbol s) ts) := by
  cases ts with
  | nil => rfl
  | cons t rest =>
      have ht : t ≠ .symbol s := fun heq => h (congrArg some heq)
      rw [symbol, if_neg ht]
      rfl

namespace Tape

/-- **The machine is at some tokens.** -/
structure At (tape : Tape) (position : Nat) (ts : List Token) : Prop where
  within : position ≤ tape.tokens.length
  tokens : (tape.tokens.drop position).map Placed.token = ts

/-- The words suffice for the tokens and the levels, and the budget for a turn for each token. -/
structure Fits (tape : Tape) : Prop where
  tokens : tape.tokens.length < tape.capacity
  levels : Lambda.nestingLimit < tape.capacity
  turns : tape.tokens.length < tape.budget

/-- **A run meets a reading:** it is rejected at the token that the reading rejects, or ends with
what is asked for. -/
inductive Meets (tape : Tape) {α β : Type}
    (post : Except Rejection (α × List Token) → β × Cursor → Prop) :
    Except Rejection (α × List Token) → Option (Except Halt (β × Cursor)) → Prop
  | ok {x : Except Rejection (α × List Token)} {r : β × Cursor} (h : post x r) :
      Meets tape post x (some (.ok r))
  | error {rest : List Token} {fault : SyntaxFault} {position : Nat} (h : tape.At position rest) :
      Meets tape post (.error ⟨rest, fault⟩)
        (some (.error (.rejected ⟨tape.offsetAt position, fault⟩)))

/-- The value of a reading, at the tokens that it leaves and with `depth` levels open. -/
def Leaves (tape : Tape) {α : Type} (depth : Nat) (x : Except Rejection (α × List Token))
    (r : α × Cursor) : Prop :=
  ∃ rest, x = .ok (r.1, rest) ∧ tape.At r.2.position rest ∧ r.2.depth = depth

/-- **A run agrees with a reading:** it ends where the reading does, with `depth` levels open, or is
rejected at the token that the reading rejects. -/
abbrev Agrees (tape : Tape) {α : Type} (depth : Nat) :
    Except Rejection (α × List Token) → Option (Except Halt (α × Cursor)) → Prop :=
  tape.Meets (tape.Leaves depth)

/-- The end of the loop with what is read, or fewer than `bound` tokens from which it is read. -/
def GoesOn (tape : Tape) {α β : Type} (depth within bound : Nat)
    (read : β → List Token → Except Rejection (α × List Token))
    (x : Except Rejection (α × List Token)) (r : Turn α β × Cursor) : Prop :=
  match r.1 with
  | .stop a => tape.Leaves depth x (a, r.2)
  | .again b => ∃ rest, x = read b rest ∧ tape.At r.2.position rest ∧ r.2.depth = within ∧
      rest.length < bound

/-- **A turn of a loop agrees with a reading:** it ends the loop where the reading ends, or leaves
fewer than `bound` tokens, from which the rest of the reading is read, or it is rejected at the
token that the reading rejects. In the loop `within` levels are open, and `depth` behind it. -/
abbrev Turns (tape : Tape) {α β : Type} (depth within bound : Nat)
    (read : β → List Token → Except Rejection (α × List Token)) :
    Except Rejection (α × List Token) → Option (Except Halt (Turn α β × Cursor)) → Prop :=
  tape.Meets (tape.GoesOn depth within bound read)

variable {tape : Tape} {α β γ : Type} {position depth within bound : Nat} {t : Token}
  {ts rest : List Token}

/-! ### Positions -/

/-- The token at a position is the first of those that are left. -/
theorem At.tokenAt (h : tape.At position ts) : tape.tokenAt position = ts.head? := by
  rw [Tape.tokenAt, ← h.tokens, ← List.head?_drop, List.head?_map]

/-- One position further, one token less is left. -/
theorem At.next (h : tape.At position (t :: ts)) : tape.At (position + 1) ts := by
  have hlength := congrArg List.length h.tokens
  rw [List.length_map, List.length_drop, List.length_cons] at hlength
  refine ⟨by omega, ?_⟩
  rw [← List.tail_drop, List.map_tail, h.tokens, List.tail_cons]

/-- What was taken and what is left are all tokens together. -/
theorem At.position_add (h : tape.At position ts) :
    position + ts.length = tape.tokens.length := by
  have hlength := congrArg List.length h.tokens
  rw [List.length_map, List.length_drop] at hlength
  have := h.within
  omega

/-- The place of the next token is that of the tokens from there on. -/
theorem At.offsetAt_eq (h : tape.At position ts) :
    tape.offsetAt position = Lambda.offsetOf tape.tokens tape.size ts.length := by
  have hlength := h.position_add
  have hposition : tape.tokens.length - ts.length = position := by omega
  rw [Tape.offsetAt, Lambda.offsetOf, hposition, ← List.head?_drop]
  cases tape.tokens.drop position <;> rfl

/-! ### Steps -/

/-- To look at the next token takes nothing. -/
theorem peek_bind (h : tape.At position ts) (k : Option Token → Parse β) :
    (tape.peek >>= k) ⟨position, depth⟩ = k ts.head? ⟨position, depth⟩ := by
  refine Parse.bind_of_ok ?_ k
  rw [← h.tokenAt]
  rfl

/-- A value that both readers have reached is agreed on. -/
theorem Meets.value (h : tape.At position rest) (a : α) :
    tape.Agrees depth (.ok (a, rest)) (some (.ok (a, ⟨position, depth⟩))) :=
  Meets.ok ⟨rest, rfl, h, rfl⟩

/-- So is one that is given without reading. -/
theorem Meets.pure (h : tape.At position rest) (a : α) :
    tape.Agrees depth (.ok (a, rest)) ((Pure.pure a : Parse α) ⟨position, depth⟩) :=
  .value h a

section

variable {post : Except Rejection (α × List Token) → β × Cursor → Prop}

/-- A rejection for the same fault at the same tokens is agreed on. -/
theorem Meets.reject (h : tape.At position ts) (fault : SyntaxFault) :
    tape.Meets post (.error ⟨ts, fault⟩) ((tape.reject fault : Parse β) ⟨position, depth⟩) :=
  .error h

/-- So is the rejection of the next token. -/
theorem Meets.unexpected (h : tape.At position ts) (what : Expectation) :
    tape.Meets post (.error (.expected what ts))
      ((tape.unexpected what : Parse β) ⟨position, depth⟩) := by
  rw [Tape.unexpected, peek_bind h]
  exact .reject h _

/-- **What follows a run that agrees** has to meet what follows the reading. -/
theorem Meets.bind {x : Except Rejection (γ × List Token)} {m : Parse γ} {cursor : Cursor}
    {f : γ × List Token → Except Rejection (α × List Token)} {k : γ → Parse β}
    (h : tape.Agrees depth x (m cursor))
    (hk : ∀ c rest position, x = .ok (c, rest) → tape.At position rest →
      tape.Meets post (f (c, rest)) (k c ⟨position, depth⟩)) :
    tape.Meets post (x.bind f) ((m >>= k) cursor) := by
  generalize hm : m cursor = y at h
  cases h with
  | @ok x r h =>
      obtain ⟨c, position, depth⟩ := r
      obtain ⟨rest, rfl, h, rfl⟩ := h
      rw [Parse.bind_of_ok hm]
      exact hk _ _ _ rfl h
  | error h =>
      rw [Parse.bind_of_error hm]
      exact .error h

/-- Nothing follows a rejection. -/
theorem Meets.error_bind {m : Parse γ} {cursor : Cursor} {e : Rejection}
    (h : tape.Agrees depth (.error e) (m cursor)) (k : γ → Parse β) :
    tape.Meets post (.error e) ((m >>= k) cursor) :=
  h.bind (f := fun _ => .error e) fun _ _ _ h => by cases h

/-- Steps that ask for a token go on as the readers do that ask for it. -/
theorem Meets.onToken {next other : List Token → Except Rejection (α × List Token)}
    {m m' : Parse β} (h : tape.At position ts)
    (hnext : ∀ rest, ts = t :: rest → tape.Meets post (next rest) (m ⟨position, depth⟩))
    (hother : ts.head? ≠ some t → tape.Meets post (other ts) (m' ⟨position, depth⟩)) :
    tape.Meets post (MemberAccess.onToken t next other ts)
      ((tape.peek >>= fun found => if found = some t then m else m') ⟨position, depth⟩) := by
  rw [peek_bind h]
  by_cases ht : ts.head? = some t
  · obtain ⟨rest, rfl⟩ := List.head?_eq_some_iff.1 ht
    rw [if_pos ht, onToken_cons]
    exact hnext rest rfl
  · rw [if_neg ht, onToken_of_ne ht]
    exact hother ht

/-- No level is opened beyond the limit. -/
theorem Meets.descend_limit (h : tape.At position ts) (k : Unit → Parse β) :
    tape.Meets post (.error ⟨ts, .tooDeep⟩)
      ((tape.descend >>= k) ⟨position, Lambda.nestingLimit⟩) := by
  have hdescend : tape.descend ⟨position, Lambda.nestingLimit⟩ =
      (tape.reject .tooDeep : Parse Unit) ⟨position, Lambda.nestingLimit⟩ := rfl
  rw [Parse.bind_of_error hdescend]
  exact .error h

end

/-- A change of the value changes the value. -/
theorem Meets.map {x : Except Rejection (α × List Token)} {m : Parse α} {cursor : Cursor}
    (h : tape.Agrees depth x (m cursor)) (f : α → β) :
    tape.Agrees depth (x.map fun r => (f r.1, r.2))
      ((m >>= fun a => Pure.pure (f a) : Parse β) cursor) := by
  have hbind : tape.Agrees depth (x.bind fun r => .ok (f r.1, r.2))
      ((m >>= fun a => Pure.pure (f a) : Parse β) cursor) :=
    h.bind fun a rest position _ h => .pure h (f a)
  cases x <;> exact hbind

/-! ### Loops -/

section

variable {read : β → List Token → Except Rejection (α × List Token)} {turn : β → Parse (Turn α β)}

/-- A loop may stop where the reader has its value. -/
theorem Meets.stop (h : tape.At position rest) (a : α) :
    tape.Turns depth within bound read (.ok (a, rest))
      ((Pure.pure (.stop a) : Parse (Turn α β)) ⟨position, depth⟩) :=
  Meets.ok ⟨rest, rfl, h, rfl⟩

/-- A loop may take another turn where the reader goes on with fewer tokens. -/
theorem Meets.again (h : tape.At position rest) (hshort : rest.length < bound) (b : β) :
    tape.Turns depth within bound read (read b rest)
      ((Pure.pure (.again b) : Parse (Turn α β)) ⟨position, within⟩) :=
  Meets.ok ⟨rest, rfl, h, rfl, hshort⟩

/-- **A loop agrees with a reading** if its turns do, within a turn for each token and one more. -/
theorem Meets.loop {budget : Nat}
    (hturn : ∀ b {position : Nat} {ts : List Token}, tape.At position ts →
      tape.Turns depth within ts.length read (read b ts) (turn b ⟨position, within⟩))
    (h : tape.At position ts) (hbudget : ts.length < budget) (b : β) :
    tape.Agrees depth (read b ts) (MonadParse.loop turn budget b ⟨position, within⟩) := by
  induction budget generalizing b position ts with
  | zero => exact absurd hbudget (Nat.not_lt_zero _)
  | succ budget ih =>
      have hrun := hturn b h
      rw [MonadParse.loop]
      generalize hm : turn b ⟨position, within⟩ = run at hrun
      generalize read b ts = x at hrun
      cases hrun with
      | @ok x r hgoes =>
          obtain ⟨next, position, levels⟩ := r
          rw [Parse.bind_of_ok hm]
          cases next with
          | stop a =>
              obtain ⟨rest, rfl, h, rfl⟩ := hgoes
              exact .pure h a
          | again b =>
              obtain ⟨rest, rfl, h, rfl, hshort⟩ := hgoes
              exact ih h (by omega) b
      | error h =>
          rw [Parse.bind_of_error hm]
          exact .error h

end

/-! ### Tokens -/

section

variable (hfits : tape.Fits)

include hfits

/-- A move over tokens that are there ends behind them. -/
theorem move_run {n : Nat} (h : tape.At position ts) (hn : n ≤ ts.length) :
    tape.move n ⟨position, depth⟩ = some (.ok ((), ⟨position + n, depth⟩)) := by
  have hsum : Bytes.add tape.capacity position n = .ok (position + n) := by
    have hlength := h.position_add
    have htokens := hfits.tokens
    exact Bytes.add_of_lt (by omega)
  have hmove : tape.move n ⟨position, depth⟩ =
      (Parse.word (Bytes.add tape.capacity position n) >>= fun position =>
        set (Cursor.mk position depth)) ⟨position, depth⟩ := rfl
  rw [hmove, hsum]
  rfl

/-- Reading goes on behind the next token. -/
theorem advance_bind (h : tape.At position (t :: ts)) (k : Unit → Parse β) :
    (tape.advance >>= k) ⟨position, depth⟩ = k () ⟨position + 1, depth⟩ := by
  refine Parse.bind_of_ok ?_ k
  rw [advance, peek_bind h]
  exact move_run hfits h (Nat.le_add_left _ _)

/-- A symbol is expected alike. -/
theorem Agrees.expect (h : tape.At position ts) (s : Symbol) :
    tape.Agrees depth (plain (Reader.symbol s ts)) (tape.expect s ⟨position, depth⟩) := by
  rw [Tape.expect, peek_bind h]
  by_cases hs : ts.head? = some (.symbol s)
  · obtain ⟨rest, rfl⟩ := List.head?_eq_some_iff.1 hs
    rw [if_pos hs, Reader.plain_symbol, move_run hfits h (Nat.le_add_left _ _)]
    exact .value h.next _
  · rw [if_neg hs, Reader.plain_symbol_of_ne hs]
    exact .unexpected h _

/-- Reading goes on behind an expected symbol. -/
theorem expect_bind {s : Symbol} (h : tape.At position (.symbol s :: ts)) (k : Unit → Parse β) :
    (tape.expect s >>= k) ⟨position, depth⟩ = k () ⟨position + 1, depth⟩ := by
  refine Parse.bind_of_ok ?_ k
  rw [Tape.expect, peek_bind h, List.head?_cons, if_pos rfl]
  exact move_run hfits h (Nat.le_add_left _ _)

/-- A name is expected alike. -/
theorem Agrees.ident (h : tape.At position ts) (what : Expectation) :
    tape.Agrees depth (plain (Reader.ident what ts)) (tape.ident what ⟨position, depth⟩) := by
  rw [Tape.ident, peek_bind h]
  cases ts with
  | nil => exact .unexpected h what
  | cons t rest =>
      cases t with
      | ident name =>
          have hmove : tape.move 1 ⟨position, depth⟩ = some (.ok ((), ⟨position + 1, depth⟩)) :=
            move_run hfits h (Nat.le_add_left _ _)
          simp only [List.head?_cons]
          rw [Parse.bind_of_ok hmove]
          exact .value h.next _
      | _ => exact .unexpected h what

/-! ### Levels -/

/-- Below the limit, reading goes on one level deeper. -/
theorem descend_bind (hdepth : depth < Lambda.nestingLimit) (k : Unit → Parse β) :
    (descend tape >>= k) ⟨position, depth⟩ = k () ⟨position, depth + 1⟩ := by
  refine Parse.bind_of_ok ?_ k
  have hsum : Bytes.add tape.capacity depth 1 = .ok (depth + 1) := by
    have hlevels := hfits.levels
    exact Bytes.add_of_lt (by omega)
  have hdescend : tape.descend ⟨position, depth⟩ =
      (if depth = Lambda.nestingLimit then tape.reject .tooDeep
        else Parse.word (Bytes.add tape.capacity depth 1) >>= fun depth =>
          set (Cursor.mk position depth) : Parse Unit) ⟨position, depth⟩ := rfl
  rw [hdescend, if_neg (Nat.ne_of_lt hdepth), hsum]
  rfl

end

/-- A level that is open is closed. -/
theorem ascend_bind (k : Unit → Parse β) :
    (ascend >>= k) ⟨position, depth + 1⟩ = k () ⟨position, depth⟩ := by
  refine Parse.bind_of_ok ?_ k
  rfl

/-- A level that a run leaves open is closed behind it. -/
theorem Meets.ascend {x : Except Rejection (α × List Token)} {m : Parse α} {cursor : Cursor}
    (h : tape.Agrees (depth + 1) x (m cursor)) (f : α → β) :
    tape.Agrees depth (x.map fun r => (f r.1, r.2))
      ((m >>= fun a => Tape.ascend >>= fun _ => Pure.pure (f a) : Parse β) cursor) := by
  have hbind : tape.Agrees depth (x.bind fun r => .ok (f r.1, r.2))
      ((m >>= fun a => Tape.ascend >>= fun _ => Pure.pure (f a) : Parse β) cursor) := by
    refine h.bind fun a rest position _ h => ?_
    rw [ascend_bind]
    exact .pure h _
  cases x <;> exact hbind

/-! ### Paths and types -/

section

variable (hfits : tape.Fits)

include hfits

/-- There is a turn for each token that is left, and one more. -/
theorem Fits.length_lt (h : tape.At position ts) : ts.length < tape.budget := by
  have hlength := h.position_add
  have hturns := hfits.turns
  omega

/-- Each turn of the segments of a path reads one more. -/
theorem Turns.furtherSegment (h : tape.At position ts) (path : String) :
    tape.Turns depth depth ts.length (fun path ts => plain (Reader.segments path ts))
      (plain (Reader.segments path ts))
      ((tape.furtherSegment path : Parse _) ⟨position, depth⟩) := by
  simp only [Tape.furtherSegment, Parse.step_eq]
  rw [peek_bind h]
  by_cases hcolons : ts.head? = some (.symbol .colons)
  · obtain ⟨rest, rfl⟩ := List.head?_eq_some_iff.1 hcolons
    rw [if_pos hcolons, advance_bind hfits h, Reader.plain_segments_colons]
    refine (Agrees.ident hfits h.next _).bind fun name after position hread h => ?_
    have hshort := Reading.length_lt_of_plain hread
    exact .again h (Nat.lt_succ_of_lt hshort) _
  · rw [if_neg hcolons, Reader.plain_segments_of_head hcolons]
    exact .stop h path

/-- Paths are read alike. -/
theorem Agrees.path (h : tape.At position ts) :
    tape.Agrees depth (plain (Reader.path ts)) ((tape.path : Parse _) ⟨position, depth⟩) := by
  rw [Reader.path, Reader.plain_andThen]
  exact (Agrees.ident hfits h _).bind fun name rest position _ h =>
    .loop (fun path _ _ h => .furtherSegment hfits h path) h (hfits.length_lt h) name

/-- Type arguments close the level that they are read in. -/
theorem Turns.typeArgument {inner : Reader String} {type : Parse String}
    (hinner : ∀ {position : Nat} {ts : List Token}, tape.At position ts →
      tape.Agrees (depth + 1) (plain (inner ts)) (type ⟨position, depth + 1⟩))
    (h : tape.At position ts) (text : String) :
    tape.Turns depth (depth + 1) ts.length
      (fun text ts => plain (Reader.typeArguments inner text ts))
      (plain (Reader.typeArguments inner text ts))
      (tape.typeArgument type text ⟨position, depth + 1⟩) := by
  simp only [Tape.typeArgument, Parse.step_eq, Parse.within_eq]
  rw [Reader.plain_typeArguments]
  refine (hinner h).bind fun argument rest position hread h => ?_
  have hshort := Reading.length_lt_of_plain hread
  rw [peek_bind h]
  cases rest with
  | nil => exact .unexpected h _
  | cons t rest =>
      cases t with
      | symbol s =>
          cases s with
          | comma =>
              simp only [List.head?_cons]
              rw [advance_bind hfits h]
              exact .again h.next (Nat.lt_of_succ_lt hshort) _
          | greater =>
              simp only [List.head?_cons]
              rw [advance_bind hfits h, ascend_bind]
              exact .stop h.next _
          | _ => exact .unexpected h _
      | _ => exact .unexpected h _

end

/-! ### Operands -/

section

variable (hfits : tape.Fits) {param : String} {inner : Reader Expr} {expr : Parse Expr}
  (hinner : ∀ {position : Nat} {ts : List Token}, tape.At position ts →
    tape.Agrees depth (plain (inner ts)) (expr ⟨position, depth⟩))

include hfits hinner

/-- An expression up to the symbol that closes it, and what follows. -/
theorem Meets.closed_bind {post : Except Rejection (α × List Token) → β × Cursor → Prop}
    {close : Symbol} (h : tape.At position ts)
    {f : Expr × List Token → Except Rejection (α × List Token)} {k : Expr → Parse β}
    (hk : ∀ e rest position, plain (Reader.closed inner close ts) = .ok (e, rest) →
      tape.At position rest → tape.Meets post (f (e, rest)) (k e ⟨position, depth⟩)) :
    tape.Meets post ((plain (Reader.closed inner close ts)).bind f)
      ((expr >>= fun e => tape.expect close >>= fun _ => k e) ⟨position, depth⟩) := by
  have hclosed := Reader.plain_closed inner close ts
  have hassoc : (plain (Reader.closed inner close ts)).bind f =
      (plain (inner ts)).bind fun r =>
        (plain (Reader.symbol close r.2)).bind fun s => f (r.1, s.2) := by
    rw [hclosed]
    cases plain (inner ts) with
    | error e => rfl
    | ok r => simp only [Except.bind]; cases plain (Reader.symbol close r.2) <;> rfl
  rw [hassoc]
  refine (hinner h).bind fun e rest position hread h => ?_
  refine (Agrees.expect hfits h close).bind fun _ rest' position hclose h => ?_
  refine hk e rest' position ?_ h
  rw [hclosed, hread]
  simp only [Except.bind, hclose]
  rfl

/-- What the arguments of a call are read as, if the parenthesis that closes them is left. -/
def readArguments (inner : Reader Expr) (args : List Expr) (ts : List Token) :
    Except Rejection (List Expr × List Token) :=
  (plain (Reader.arguments inner args ts)).map fun r => (r.1, .symbol .closeParen :: r.2)

/-- Each turn of the arguments reads one more. -/
theorem Turns.argument (h : tape.At position ts) (args : List Expr) :
    tape.Turns depth depth ts.length (readArguments inner) (readArguments inner args ts)
      (tape.argument expr args ⟨position, depth⟩) := by
  simp only [Tape.argument, Parse.step_eq]
  rw [peek_bind h, readArguments]
  by_cases hclose : ts.head? = some (.symbol .closeParen)
  · obtain ⟨rest, rfl⟩ := List.head?_eq_some_iff.1 hclose
    rw [if_pos hclose, Reader.plain_arguments]
    exact .stop h _
  rw [if_neg hclose, Reader.plain_arguments_open inner args hclose, map_bind]
  refine (hinner h).bind fun arg rest position hread h => ?_
  have hshort := Reading.length_lt_of_plain hread
  rw [peek_bind h]
  by_cases hclosed : rest.head? = some (.symbol .closeParen)
  · obtain ⟨more, rfl⟩ := List.head?_eq_some_iff.1 hclosed
    have hread : readArguments inner (arg :: args) (.symbol .closeParen :: more) =
        .ok ((arg :: args).reverse, .symbol .closeParen :: more) := by
      rw [readArguments, Reader.plain_arguments]
      rfl
    rw [if_pos hclosed]
    have hagain : tape.Turns depth depth ts.length (readArguments inner)
        (readArguments inner (arg :: args) (.symbol .closeParen :: more))
        ((Pure.pure (.again (arg :: args)) : Parse (Turn (List Expr) (List Expr)))
          ⟨position, depth⟩) := .again h hshort _
    rw [hread] at hagain
    exact hagain
  rw [if_neg hclosed]
  by_cases hcomma : rest.head? = some (.symbol .comma)
  · obtain ⟨more, rfl⟩ := List.head?_eq_some_iff.1 hcomma
    rw [expect_bind hfits h]
    exact .again h.next (Nat.lt_of_succ_lt hshort) _
  · have hexpect : tape.Agrees depth _ (tape.expect .comma ⟨_, depth⟩) :=
      .expect hfits h .comma
    rw [Reader.plain_symbol_of_ne hcomma] at hexpect
    have hafter : Reader.afterArgument inner args arg rest =
        .error (.expected (.symbol .comma) rest) := by
      rw [Reader.afterArgument.eq_def]
      split
      · exact absurd rfl hclosed
      · exact absurd rfl hcomma
      · rfl
    show tape.Turns depth depth _ _ ((Reader.afterArgument inner args arg rest).map _) _
    rw [hafter]
    exact hexpect.error_bind _

/-- A call reads its arguments between parentheses. -/
theorem Agrees.call (h : tape.At position (.symbol .openParen :: ts)) :
    tape.Agrees depth (plain (Reader.arguments inner [] ts))
      (tape.call expr ⟨position, depth⟩) := by
  simp only [Tape.call, Parse.step_eq]
  rw [expect_bind hfits h]
  have hargs : tape.Agrees depth (readArguments inner [] ts)
      (MonadParse.loop (tape.argument expr) tape.budget [] ⟨position + 1, depth⟩) :=
    .loop (fun args _ _ h => .argument hfits hinner h args) h.next (hfits.length_lt h.next) []
  rw [readArguments] at hargs
  cases hread : plain (Reader.arguments inner [] ts) with
  | error e =>
      rw [hread] at hargs
      exact hargs.error_bind _
  | ok r =>
      rw [hread] at hargs
      refine hargs.bind (f := fun _ => .ok r) fun args rest position heq h => ?_
      cases heq
      rw [expect_bind hfits h]
      exact .pure h.next _

/-- What begins with a name is read alike. -/
theorem Agrees.named (h : tape.At position ts) :
    tape.Agrees depth (plain (Reader.named param inner ts))
      (tape.named param expr ⟨position, depth⟩) := by
  simp only [Tape.named, Parse.step_eq]
  rw [Reader.plain_named_onToken]
  refine (Agrees.path hfits h).bind fun name rest position _ h => ?_
  refine .onToken h (fun more hrest => ?_) fun _ => .pure h _
  subst hrest
  exact (Agrees.call hfits hinner h).map (Expr.call name)

/-- Operands without prefixes and applications are read alike. -/
theorem Agrees.atom (h : tape.At position ts) :
    tape.Agrees depth (plain (Reader.atom param inner ts))
      (tape.atom param expr ⟨position, depth⟩) := by
  simp only [Tape.atom, Parse.step_eq]
  rw [peek_bind h, Reader.plain_atom]
  cases ts with
  | nil => exact .unexpected h _
  | cons t rest =>
      cases t with
      | literal l =>
          simp only [List.head?_cons]
          rw [advance_bind hfits h]
          exact .pure h.next _
      | ident name => exact .named hfits hinner h
      | keywordAs => exact .unexpected h _
      | symbol s =>
          cases s with
          | openParen =>
              simp only [List.head?_cons]
              rw [advance_bind hfits h]
              have hclosed : tape.Agrees depth
                  ((plain (Reader.closed inner .closeParen rest)).bind .ok)
                  ((expr >>= fun e => tape.expect .closeParen >>= fun _ => Pure.pure e)
                    ⟨position + 1, depth⟩) :=
                .closed_bind hfits hinner h.next fun e rest position _ h => .pure h e
              cases hread : plain (Reader.closed inner .closeParen rest) with
              | error e =>
                  rw [hread] at hclosed
                  exact hclosed
              | ok r =>
                  rw [hread] at hclosed
                  exact hclosed
          | _ => exact .unexpected h _

/-- Each turn of the applications reads one more member, call or index. -/
theorem Turns.application (h : tape.At position ts) (left : Expr) :
    tape.Turns depth depth ts.length (fun left ts => plain (Reader.postfixes inner left ts))
      (plain (Reader.postfixes inner left ts))
      (tape.application expr left ⟨position, depth⟩) := by
  simp only [Tape.application, Parse.step_eq]
  rw [peek_bind h]
  by_cases hdot : ts.head? = some (.symbol .dot)
  · obtain ⟨rest, rfl⟩ := List.head?_eq_some_iff.1 hdot
    rw [Reader.plain_postfixes_dot]
    simp only [List.head?_cons]
    rw [advance_bind hfits h, List.length_cons]
    refine (Agrees.ident hfits h.next _).bind fun name after position hname h => ?_
    have hshort := Reading.length_lt_of_plain hname
    refine .onToken h (fun more hafter => ?_) fun _ => .again h (Nat.lt_succ_of_lt hshort) _
    subst hafter
    refine (Agrees.call hfits hinner h).bind fun args rest position hargs h => ?_
    have hclosed := Reading.length_lt_of_plain hargs
    rw [List.length_cons] at hshort
    exact .again h (by omega) _
  by_cases hopen : ts.head? = some (.symbol .openBracket)
  · obtain ⟨rest, rfl⟩ := List.head?_eq_some_iff.1 hopen
    rw [Reader.plain_postfixes]
    simp only [List.head?_cons]
    rw [advance_bind hfits h, List.length_cons]
    refine .closed_bind hfits hinner h.next fun e after position hposition h => ?_
    have hshort := Reading.length_lt_of_plain hposition
    exact .again h (Nat.lt_succ_of_lt hshort) _
  · rw [Reader.plain_postfixes_of_head hdot hopen]
    cases ts with
    | nil => exact .stop h _
    | cons t rest =>
        cases t with
        | symbol s =>
            cases s with
            | dot => exact absurd rfl hdot
            | openBracket => exact absurd rfl hopen
            | _ => exact .stop h _
        | _ => exact .stop h _

/-- Operands with their applications are read alike. -/
theorem Agrees.applied (h : tape.At position ts) :
    tape.Agrees depth (plain (Reader.applied param inner ts))
      (tape.applied param expr ⟨position, depth⟩) := by
  rw [Tape.applied, Reader.plain_applied]
  exact (Agrees.atom hfits hinner h).bind fun e rest position _ h =>
    .loop (fun left _ _ h => .application hfits hinner h left) h (hfits.length_lt h) e

end

/-! ### Layers -/

/-- **The machine agrees with a layer** where `depth` levels are open, within `enough` calls. -/
structure AgreesAt (tape : Tape) (param : String) (depth enough : Nat) (layer : Layer) :
    Prop where
  expr {calls p position : Nat} {ts : List Token} (hcalls : enough ≤ calls) (hp : p ≤ castLevel)
    (h : tape.At position ts) :
    tape.Agrees depth (plain (layer.expr p ts))
      ((tape.expr param calls p : Parse _) ⟨position, depth⟩)
  operand {calls position : Nat} {ts : List Token} (hcalls : enough ≤ calls)
    (h : tape.At position ts) :
    tape.Agrees depth (plain (layer.operand ts))
      ((tape.operand param calls : Parse _) ⟨position, depth⟩)
  type {calls position : Nat} {ts : List Token} (hcalls : enough ≤ calls)
    (h : tape.At position ts) :
    tape.Agrees depth (plain (layer.type ts)) ((tape.type calls : Parse _) ⟨position, depth⟩)

/-- **The layer behind the next level,** if one may be opened. -/
inductive Opens (tape : Tape) (param : String) (enough : Nat) : Nat → Layer → Prop
  | limit : Opens tape param enough Lambda.nestingLimit .bottom
  | level {depth : Nat} {below : Layer} (hdepth : depth < Lambda.nestingLimit)
      (h : tape.AgreesAt param (depth + 1) enough below) : Opens tape param enough depth below

section

variable (hfits : tape.Fits) {param : String} {below : Layer} {enough calls : Nat}

include hfits

/-- Each turn of the operators reads one more operator with what is right of it. -/
theorem Turns.operator (hbelow : tape.AgreesAt param depth enough below)
    (hcalls : enough ≤ calls) {p : Nat} (hp : p ≤ castLevel) (h : tape.At position ts)
    (left : Expr) :
    tape.Turns depth depth ts.length
      (fun left ts => plain (Reader.operators below.expr below.type p left ts))
      (plain (Reader.operators below.expr below.type p left ts))
      ((tape.operator (fun p => tape.expr param calls p) (tape.type calls) p left : Parse _)
        ⟨position, depth⟩) := by
  simp only [Tape.operator, Parse.step_eq]
  rw [peek_bind h]
  cases ts with
  | nil =>
      rw [Reader.plain_operators]
      exact .stop h left
  | cons t rest =>
      cases t with
      | keywordAs =>
          rw [Reader.plain_operators]
          simp only [List.head?_cons]
          rw [if_neg (Nat.not_lt.2 hp), advance_bind hfits h]
          refine (hbelow.type hcalls h.next).bind fun type after position hread h => ?_
          have hshort := Reading.length_lt_of_plain hread
          exact .again h (Nat.lt_succ_of_lt hshort) _
      | symbol s =>
          simp only [List.head?_cons]
          cases hop : (Token.symbol s).binaryOp? with
          | none =>
              rw [Reader.plain_operators_of_head (by simp)]
              · exact .stop h left
              · rintro t op ht hop'
                cases ht
                cases hop.symm.trans hop'
          | some op =>
              simp only
              by_cases hlevel : op.level < p
              · rw [if_pos hlevel, Reader.plain_operators_of_head (by simp)]
                · exact .stop h left
                · rintro t op' ht hop'
                  cases ht
                  cases hop.symm.trans hop'
                  exact hlevel
              · rw [if_neg hlevel, advance_bind hfits h,
                  Reader.plain_operators_binary _ _ left hop (Nat.le_of_not_lt hlevel)]
                refine (hbelow.expr hcalls op.level_lt h.next).bind
                  fun e after position hread h => ?_
                have hshort := Reading.length_lt_of_plain hread
                exact .again h (Nat.lt_succ_of_lt hshort) _
      | _ =>
          rw [Reader.plain_operators]
          exact .stop h left

/-- An operand and the operators behind it are an expression of the layer above. -/
theorem Agrees.operators (hbelow : tape.AgreesAt param depth enough below)
    (hcalls : enough ≤ calls) {p : Nat} (hp : p ≤ castLevel) (h : tape.At position ts) :
    tape.Agrees depth (plain ((below.next param).expr p ts))
      ((tape.operators (tape.operand param calls) (fun p => tape.expr param calls p)
        (tape.type calls) p : Parse _) ⟨position, depth⟩) := by
  rw [Tape.operators, Layer.plain_expr]
  exact (hbelow.operand hcalls h).bind fun left rest position _ h =>
    .loop (fun left _ _ h => .operator hfits hbelow hcalls hp h left) h (hfits.length_lt h) left

/-- Expressions are read alike if the layer below is. -/
theorem Agrees.expr (hopens : tape.Opens param enough depth below) (hcalls : enough ≤ calls)
    {p : Nat} (hp : p ≤ castLevel) (h : tape.At position ts) :
    tape.Agrees depth (plain ((below.next param).expr p ts))
      ((tape.expr param (calls + 1) p : Parse _) ⟨position, depth⟩) := by
  simp only [Tape.expr, Parse.step_eq, Parse.within_eq]
  cases hopens with
  | limit =>
      rw [Layer.plain_expr]
      exact .descend_limit h _
  | level hdepth hbelow =>
      rw [descend_bind hfits hdepth]
      have hoperators := (Agrees.operators hfits hbelow hcalls hp h).ascend id
      generalize plain ((below.next param).expr p ts) = x at hoperators ⊢
      cases x <;> exact hoperators

/-- So are operands. -/
theorem Agrees.operand (hopens : tape.Opens param enough depth below) (hcalls : enough < calls)
    (h : tape.At position ts) :
    tape.Agrees depth (plain ((below.next param).operand ts))
      ((tape.operand param (calls + 1) : Parse _) ⟨position, depth⟩) := by
  have hinner {position : Nat} {ts : List Token} (h : tape.At position ts) :
      tape.Agrees depth (plain ((below.next param).expr 0 ts))
        ((tape.expr param calls 0 : Parse _) ⟨position, depth⟩) := by
    obtain ⟨calls, rfl⟩ := Nat.exists_eq_add_of_lt hcalls
    exact .expr hfits hopens (Nat.le_add_right _ _) (Nat.zero_le _) h
  have hoperand : (below.next param).operand ts =
      Reader.operand param below.operand ((below.next param).expr 0) ts := rfl
  simp only [Tape.operand, Parse.step_eq, Parse.within_eq]
  rw [peek_bind h, hoperand]
  cases ts with
  | nil => exact .applied hfits hinner h
  | cons t rest =>
      rw [Reader.plain_operand, List.head?_cons, Option.bind_some]
      cases t.unaryOp? with
      | none => exact .applied hfits hinner h
      | some op =>
          simp only
          rw [advance_bind hfits h]
          cases hopens with
          | limit => exact .descend_limit h.next _
          | level hdepth hbelow =>
              rw [descend_bind hfits hdepth]
              exact (hbelow.operand (Nat.le_of_lt hcalls) h.next).ascend (Expr.unary op)

/-- So are types. -/
theorem Agrees.type (hopens : tape.Opens param enough depth below) (hcalls : enough ≤ calls)
    (h : tape.At position ts) :
    tape.Agrees depth (plain ((below.next param).type ts))
      ((tape.type (calls + 1) : Parse _) ⟨position, depth⟩) := by
  have htype : (below.next param).type ts = Reader.type below.type ts := rfl
  simp only [Tape.type, Parse.step_eq]
  rw [htype, Reader.plain_type_onToken]
  refine (Agrees.path hfits h).bind fun name rest position _ h => ?_
  refine .onToken h (fun more hrest => ?_) fun _ => .pure h _
  subst hrest
  rw [advance_bind hfits h]
  cases hopens with
  | limit =>
      rw [Reader.plain_typeArguments]
      exact .descend_limit h.next _
  | level hdepth hbelow =>
      rw [descend_bind hfits hdepth]
      exact .loop (fun text _ _ h => .typeArgument hfits (hbelow.type hcalls) h text) h.next
        (hfits.length_lt h.next) _

/-- A layer is read alike if what opens a level in it is, with two calls more. -/
theorem AgreesAt.next (hopens : tape.Opens param enough depth below) :
    tape.AgreesAt param depth (enough + 2) (below.next param) where
  expr {calls _ _ _} hcalls hp h := by
    cases calls with
    | zero => exact absurd hcalls (Nat.not_succ_le_zero _)
    | succ calls => exact .expr hfits hopens (by omega) hp h
  operand {calls _ _} hcalls h := by
    cases calls with
    | zero => exact absurd hcalls (Nat.not_succ_le_zero _)
    | succ calls => exact .operand hfits hopens (by omega) h
  type {calls _ _} hcalls h := by
    cases calls with
    | zero => exact absurd hcalls (Nat.not_succ_le_zero _)
    | succ calls => exact .type hfits hopens (by omega) h

/-- **The machine agrees with the layer of the levels that are left,** within two calls for each
level and two more. -/
theorem agreesAt_ofRoom {room : Nat} (hroom : depth + room = Lambda.nestingLimit) :
    tape.AgreesAt param depth (2 * room + 2) (Layer.ofRoom param room) := by
  induction room generalizing depth with
  | zero =>
      obtain rfl : depth = Lambda.nestingLimit := hroom
      exact .next hfits .limit
  | succ room ih => exact .next hfits (.level (by omega) (ih (by omega)))

/-! ### Lambdas -/

/-- To look at the second token takes nothing. -/
theorem peekSecond_bind (h : tape.At 0 ts) (k : Option Token → Parse β) :
    (tape.peekSecond >>= k) ⟨0, depth⟩ = k ts[1]? ⟨0, depth⟩ := by
  refine Parse.bind_of_ok ?_ k
  have hsum : Bytes.add tape.capacity 0 1 = .ok 1 := by
    exact Bytes.add_of_lt (Nat.lt_of_le_of_lt (by decide) hfits.levels)
  have hpeek : tape.peekSecond ⟨0, depth⟩ =
      (Parse.word (Bytes.add tape.capacity 0 1) >>= fun position =>
        (Pure.pure (tape.tokenAt position) : Parse (Option Token))) ⟨0, depth⟩ := rfl
  rw [hpeek, hsum, ← h.tokens, List.drop_zero, List.getElem?_map]
  rfl

/-- Heads of lambdas are read alike. -/
theorem Agrees.head (h : tape.At 0 ts) :
    tape.Agrees depth (plain (Reader.head ts)) (tape.head ⟨0, depth⟩) := by
  rw [Tape.head, peek_bind h, peekSecond_bind hfits h]
  cases ts with
  | nil => exact .unexpected h _
  | cons t rest =>
      cases t with
      | literal l => exact .unexpected h _
      | keywordAs => exact .unexpected h _
      | symbol s =>
          by_cases hs : s = .pipe
          · subst hs
            rw [Reader.plain_head_pipe, Reader.plain_closed]
            simp only [List.head?_cons]
            rw [advance_bind hfits h]
            exact (Agrees.ident hfits h.next _).bind fun name after position _ h =>
              (Agrees.expect hfits h .pipe).map fun _ => name
          · cases s <;> first | exact .unexpected h _ | exact absurd rfl hs
      | ident name =>
          by_cases harrow : rest.head? = some (.symbol .arrow)
          · obtain ⟨rest, rfl⟩ := List.head?_eq_some_iff.1 harrow
            have hmove : tape.move 2 ⟨0, depth⟩ = some (.ok ((), ⟨0 + 2, depth⟩)) :=
              move_run hfits h (by simp)
            simp only [List.head?_cons, List.getElem?_cons_succ, List.getElem?_cons_zero]
            rw [Parse.bind_of_ok hmove]
            exact .value h.next.next _
          · rw [NameAlone.head_eq ⟨name, rest, rfl, harrow⟩]
            cases rest with
            | nil => exact .unexpected h _
            | cons t rest =>
                cases t with
                | symbol s =>
                    cases s <;> first | exact .unexpected h _ | exact absurd rfl harrow
                | _ => exact .unexpected h _

/-- Lambdas are read alike if the budget is enough for all levels. -/
theorem Agrees.lambda (hcalls : 2 * Lambda.nestingLimit + 2 ≤ tape.budget) (h : tape.At 0 ts) :
    tape.Agrees 0 (Lambda.whole ts) (tape.lambda ⟨0, 0⟩) := by
  rw [Tape.lambda, Lambda.whole]
  refine (Agrees.head hfits h).bind fun param rest position _ h => ?_
  have hlayer : tape.AgreesAt param 0 (2 * Lambda.nestingLimit + 2)
      (Layer.ofRoom param Lambda.nestingLimit) := agreesAt_ofRoom hfits (Nat.zero_add _)
  have hbody := hlayer.expr hcalls (Nat.zero_le _) h
  rw [Lambda.wholeBody]
  refine hbody.bind fun body rest position _ h => ?_
  rw [peek_bind h]
  cases rest with
  | nil => exact .pure h _
  | cons t rest => exact .reject h _

end

end Tape

/-! ### Texts -/

/-- A text has no more tokens than bytes. -/
theorem Scanned.length_le {offset : Nat} {cs : List Char} {placed : List Placed}
    (h : Scanned offset cs placed) : placed.length ≤ byteLength cs := by
  induction h with
  | nil => exact Nat.le_refl 0
  | blank _ _ ih => exact Nat.le_trans ih (Nat.le_add_left _ _)
  | @piece offset c slice rest t placed _ _ _ ih =>
      have hpos := byteLength_pos (List.cons_ne_nil c slice)
      rw [← List.cons_append, byteLength_append, List.length_cons]
      omega

namespace Lambda

/-- **The machine reads what is read.** -/
theorem parse_eq {capacity budget : Nat} (hlevels : nestingLimit < capacity) {source : String}
    (hsource : source.utf8ByteSize < capacity)
    (hbudget : 2 * nestingLimit + 2 + source.utf8ByteSize ≤ budget) :
    parse capacity budget source = some ((ofText source).mapError .rejected) := by
  have hbytes : 0 + byteLength source.toList < capacity := by
    rwa [Nat.zero_add, byteLength_toList]
  rw [parse, Bytes.scanFrom_eq hbytes, ofText, ofChars, scan]
  cases hscan : scanFrom 0 source.toList with
  | error piece =>
      obtain ⟨front, c, slice, back, placed, htext, hslice, hoffset, -⟩ :=
        Unrecognized.exists_slice hscan
      rw [Nat.zero_add] at hoffset
      have hcut : Bytes.slice source.toList
          ⟨piece.offset, piece.offset + byteLength piece.slice⟩ = .ok piece.slice := by
        rw [htext, hslice, hoffset, ← byteLength_append, ← List.cons_append, ← List.append_assoc]
        exact Bytes.slice_append front (c :: slice) back
      simp only [Except.mapError, hcut]
  | ok tokens =>
      have hcount := (scanned_of_scanFrom hscan).length_le
      rw [byteLength_toList] at hcount
      let tape : Tape := ⟨capacity, budget, tokens, source.utf8ByteSize⟩
      have hcalls : 2 * nestingLimit + 2 ≤ budget := Nat.le_trans (Nat.le_add_right _ _) hbudget
      have hturns : tokens.length < budget := by omega
      have hfits : tape.Fits := ⟨Nat.lt_of_le_of_lt hcount hsource, hlevels, hturns⟩
      have hat : tape.At 0 (tokens.map Placed.token) := ⟨Nat.zero_le _, rfl⟩
      have hagrees := Tape.Agrees.lambda hfits hcalls hat
      simp only [Except.mapError]
      rw [ofTokens_eq_whole, Parse.run'_eq]
      generalize tape.lambda ⟨0, 0⟩ = run at hagrees ⊢
      generalize whole (tokens.map Placed.token) = reading at hagrees ⊢
      cases hagrees with
      | @ok x r h =>
          obtain ⟨rest, rfl, -⟩ := h
          rfl
      | error h =>
          rw [h.offsetAt_eq, byteLength_toList]
          rfl

/-- A text that is not split into tokens is rejected at the first piece that is none. -/
theorem ofText_of_unrecognized {source : String} {piece : Unrecognized}
    (hscan : scan source.toList = .error piece) :
    ∃ front c slice back placed, source.toList = front ++ c :: (slice ++ back) ∧
      scan front = .ok placed ∧ isBlank c = false ∧
      Lexeme.first c (slice ++ back) = ⟨none, c :: slice, back⟩ ∧
      piece = ⟨byteLength front, c :: slice⟩ ∧
      ofText source = .error ⟨byteLength front, .unrecognized (c :: slice)⟩ := by
  obtain ⟨front, c, slice, back, placed, htext, hslice, hoffset, hscanned, hc, hfirst⟩ :=
    Unrecognized.exists_slice hscan
  obtain ⟨offset, text⟩ := piece
  obtain rfl : text = c :: slice := hslice
  obtain rfl : offset = byteLength front := hoffset.trans (Nat.zero_add _)
  refine ⟨front, c, slice, back, placed, htext, scanFrom_eq_ok_iff.2 hscanned, hc, hfirst, rfl, ?_⟩
  rw [ofText, ofChars, hscan]

/-- A text that is split into tokens is rejected at one of them, or at the end. -/
theorem offset_of_scan {source : String} {placed : List Placed} {e : SyntaxError}
    (hscan : scan source.toList = .ok placed) (hread : ofText source = .error e) :
    (∃ p ∈ placed, e.offset = p.start) ∨ e.offset = source.utf8ByteSize := by
  rcases ofText_alike hscan hscan rfl with ⟨l, hl, -⟩ | ⟨fault, i, -, herror, -⟩
  · cases hl.symm.trans hread
  cases hread.symm.trans herror
  rw [placeOf]
  cases hafter : placed.drop i with
  | nil => exact .inr rfl
  | cons p after =>
      have hp : p ∈ placed.drop i := hafter ▸ List.mem_cons_self
      exact .inl ⟨p, List.mem_of_mem_drop hp, rfl⟩

/-- A token begins between characters. -/
theorem isValid_start {source : String} {placed : List Placed}
    (hscan : scan source.toList = .ok placed) {p : Placed} (hp : p ∈ placed) :
    (⟨p.start⟩ : String.Pos.Raw).IsValid source := by
  obtain ⟨before, slice, after, htext, hstart, -⟩ := (scanned_of_scanFrom hscan).exists_slice p hp
  rw [List.append_assoc] at htext
  rw [hstart, Nat.zero_add]
  exact isValid_byteLength htext

/-- **A machine reads every text to an end, and points into it.** A run ends within two calls for
each level and a turn for each byte, and does not crash: it gives the lambda that is read, or it is
rejected. The place of a rejection is a character of the text or its end. If the text is not split
into tokens, then it is the place of the first piece that is none, behind text that is; otherwise it
is that of a token, or the end. -/
theorem parse_never_crashes {capacity budget : Nat} (hlevels : nestingLimit < capacity)
    {source : String} (hsource : source.utf8ByteSize < capacity)
    (hbudget : 2 * nestingLimit + 2 + source.utf8ByteSize ≤ budget) :
    parse capacity budget source = some ((ofText source).mapError .rejected) ∧
      ∀ e, parse capacity budget source = some (.error (.rejected e)) →
        e.offset ≤ source.utf8ByteSize ∧ (⟨e.offset⟩ : String.Pos.Raw).IsValid source ∧
          ((∃ front c slice back placed, source.toList = front ++ c :: (slice ++ back) ∧
              scan front = .ok placed ∧ isBlank c = false ∧
              Lexeme.first c (slice ++ back) = ⟨none, c :: slice, back⟩ ∧
              scan source.toList = .error ⟨byteLength front, c :: slice⟩ ∧
              e = ⟨byteLength front, .unrecognized (c :: slice)⟩) ∨
            ∃ placed, scan source.toList = .ok placed ∧
              ((∃ p ∈ placed, e.offset = p.start) ∨ e.offset = source.utf8ByteSize)) := by
  have hparse := parse_eq hlevels hsource hbudget
  refine ⟨hparse, fun e he => ?_⟩
  have hread : ofText source = .error e := by
    rw [hparse] at he
    cases hread : ofText source with
    | ok l =>
        rw [hread] at he
        cases he
    | error e' =>
        rw [hread] at he
        cases he
        rfl
  suffices hplace : (⟨e.offset⟩ : String.Pos.Raw).IsValid source ∧ _ from
    ⟨hplace.1.le_rawEndPos, hplace⟩
  cases hscan : scan source.toList with
  | error piece =>
      obtain ⟨front, c, slice, back, placed, htext, hfront, hc, hfirst, rfl, herror⟩ :=
        ofText_of_unrecognized hscan
      cases hread.symm.trans herror
      exact ⟨isValid_byteLength htext,
        .inl ⟨front, c, slice, back, placed, htext, hfront, hc, hfirst, rfl, rfl⟩⟩
  | ok placed =>
      have hoffset := offset_of_scan hscan hread
      refine ⟨?_, .inr ⟨placed, rfl, hoffset⟩⟩
      rcases hoffset with ⟨p, hp, hp'⟩ | hend
      · rw [hp']
        exact isValid_start hscan hp
      · rw [hend]
        exact String.Pos.Raw.isValid_rawEndPos

/-- A machine of 2¹⁶ words cuts `#` out of a text, behind a name of two bytes, within a budget of
300. -/
theorem parse_unrecognized :
    nestingLimit < 65536 ∧ "|x| x.é#".utf8ByteSize < 65536 ∧
      2 * nestingLimit + 2 + "|x| x.é#".utf8ByteSize ≤ 300 ∧
      parse 65536 300 "|x| x.é#" = some (.error (.rejected ⟨8, .unrecognized ['#']⟩)) ∧
      (⟨8⟩ : String.Pos.Raw).IsValid "|x| x.é#" := by
  have hlevels : nestingLimit < 65536 := by decide
  have hsource : "|x| x.é#".utf8ByteSize < 65536 := by decide +kernel
  have hbudget : 2 * nestingLimit + 2 + "|x| x.é#".utf8ByteSize ≤ 300 := by decide +kernel
  obtain ⟨hparse, hplace⟩ := parse_never_crashes hlevels hsource hbudget
  have hscan : scan "|x| x.é#".toList = .error ⟨8, ['#']⟩ := by decide +kernel
  have hread : ofText "|x| x.é#" = .error ⟨8, .unrecognized ['#']⟩ := by
    rw [ofText, ofChars, hscan]
  have hrejected :
      parse 65536 300 "|x| x.é#" = some (.error (.rejected ⟨8, .unrecognized ['#']⟩)) := by
    rw [hparse, hread]
    rfl
  exact ⟨hlevels, hsource, hbudget, hrejected, (hplace _ hrejected).2.1⟩

end Lambda

end MemberAccess
