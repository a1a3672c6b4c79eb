import MemberAccess.Lambda.OfText

/-!
# Readings without their bounds

A reading carries a bound on the tokens that follow it, for the sake of the loops of the readers.
The bounds say nothing about what is read. Here they are dropped: the plain view of a reading is
its value with the tokens that follow, or the rejection, and each reader has an equation for its
plain view, in which the loops show as recursion on tokens.

## Main definitions

* `Reading.plain`: the plain view.

## Main results

* `Reader.plain_segments_*`, `Reader.plain_postfixes_*`, `Reader.plain_operators_*`: one turn of a
  loop.
* `Layer.plain_expr`: an expression is an operand and the operators after it.
-/

namespace MemberAccess

namespace Reading

variable {α β : Type}

/-- **The plain view** of a reading: the value and the tokens that follow it. -/
def plain {n : Nat} : Except Rejection (Reading α n) → Except Rejection (α × List Token)
  | .error e => .error e
  | .ok r => .ok (r.value, r.rest)

@[simp] theorem plain_error {n : Nat} (e : Rejection) :
    plain (.error e : Except Rejection (Reading α n)) = .error e := rfl

@[simp] theorem plain_ok {n : Nat} (r : Reading α n) : plain (.ok r) = .ok (r.value, r.rest) := rfl

/-- A larger bound does not show. -/
@[simp] theorem plain_map_widen {m n : Nat} (h : m ≤ n) (x : Except Rejection (Reading α m)) :
    plain (x.map (widen h)) = plain x := by
  cases x <;> rfl

/-- A change of the value changes the value. -/
theorem plain_map {m n : Nat} (h : m ≤ n) (f : α → β) (x : Except Rejection (Reading α m)) :
    plain (x.map fun r => (r.map f).widen h) = (plain x).map fun r => (f r.1, r.2) := by
  cases x <;> rfl

/-- Going on with what follows is going on with what follows. -/
theorem plain_andThen {n : Nat} (first : Except Rejection (Reading α n))
    (next : (a : Reading α n) → Except Rejection (Reading β (a.rest.length + 1)))
    (after : α × List Token → Except Rejection (β × List Token))
    (h : ∀ a, plain (next a) = after (a.value, a.rest)) :
    plain (andThen first next) = (plain first).bind after := by
  cases first with
  | error e => rfl
  | ok a => rw [andThen, plain_map_widen, h]; rfl

/-- What follows a reading is as short as its bound says. -/
theorem length_lt_of_plain {n : Nat} {x : Except Rejection (Reading α n)} {a : α}
    {rest : List Token} (h : plain x = .ok (a, rest)) : rest.length < n := by
  cases x with
  | error e => cases h
  | ok r =>
      obtain ⟨-, rfl⟩ := Prod.mk.inj (Except.ok.inj h)
      exact r.below

end Reading

open Reading (plain)

namespace Reader

/-! ### Readers of one token, and sequences -/

/-- A value, then what follows it. -/
theorem plain_andThen {α β : Type} (first : Reader α) (next : α → Continuation β)
    (ts : List Token) :
    plain (first.andThen next ts) = (plain (first ts)).bind fun r => plain (next r.1 r.2) :=
  Reading.plain_andThen _ _ _ fun _ => rfl

/-- A symbol is read off the front. -/
theorem plain_symbol (s : Symbol) (rest : List Token) :
    plain (symbol s (.symbol s :: rest)) = .ok ((), rest) := by
  rw [symbol, if_pos rfl]
  rfl

/-- A name is read off the front. -/
theorem plain_ident (what : Expectation) (name : String) (rest : List Token) :
    plain (ident what (.ident name :: rest)) = .ok (name, rest) := rfl

/-- A value before the symbol that closes it. -/
theorem plain_closed {α : Type} (inner : Reader α) (close : Symbol) (ts : List Token) :
    plain (closed inner close ts) =
      (plain (inner ts)).bind fun r => (plain (symbol close r.2)).map fun s => (r.1, s.2) := by
  rw [closed, plain_andThen]
  congr
  funext r
  exact Reading.plain_map _ _ _

/-! ### Paths and types -/

/-- One turn of the loop over the segments of a path. -/
theorem plain_segments (path : String) (ts : List Token) :
    plain (segments path ts) =
      match ts with
      | .symbol .colons :: .ident name :: rest => plain (segments (path ++ "::" ++ name) rest)
      | .symbol .colons :: rest => .error (.expected .segment rest)
      | ts => .ok (path, ts) := by
  rw [segments.eq_def]
  split <;> simp only [Reading.plain_map_widen, Reading.plain_error, Reading.plain_ok]

/-- One turn of the loop over type arguments. -/
theorem plain_typeArguments (inner : Reader String) (text : String) (ts : List Token) :
    plain (typeArguments inner text ts) =
      (plain (inner ts)).bind fun argument =>
        match argument.2 with
        | .symbol .comma :: rest => plain (typeArguments inner (text ++ argument.1 ++ ", ") rest)
        | .symbol .greater :: rest => .ok (text ++ argument.1 ++ ">", rest)
        | rest => .error (.expected .typeArgumentEnd rest) := by
  rw [typeArguments]
  refine Reading.plain_andThen _ _ _ fun argument => ?_
  obtain ⟨value, rest, below⟩ := argument
  simp only
  split <;> simp only [Reading.plain_map_widen, Reading.plain_error, Reading.plain_ok]

/-- A path, then type arguments if a `<` follows it. -/
theorem plain_type (inner : Reader String) (ts : List Token) :
    plain (type inner ts) =
      (plain (path ts)).bind fun name =>
        match name.2 with
        | .symbol .less :: rest => plain (typeArguments inner (name.1 ++ "<") rest)
        | rest => .ok (name.1, rest) := by
  rw [type, plain_andThen]
  congr
  funext ⟨text, rest⟩
  simp only
  split <;> simp only [Reading.plain_map_widen, Reading.plain_ok]

/-! ### Operands -/

/-- One turn of the loop over arguments. -/
theorem plain_arguments (inner : Reader Expr) (args : List Expr) (ts : List Token) :
    plain (arguments inner args ts) =
      match ts with
      | .symbol .closeParen :: rest => .ok (args.reverse, rest)
      | ts =>
        (plain (inner ts)).bind fun arg =>
          match arg.2 with
          | .symbol .closeParen :: rest => .ok ((arg.1 :: args).reverse, rest)
          | .symbol .comma :: rest => plain (arguments inner (arg.1 :: args) rest)
          | rest => .error (.expected (.symbol .comma) rest) := by
  rw [arguments.eq_def]
  split
  · rfl
  · simp only
    refine Reading.plain_andThen _ _ _ fun arg => ?_
    obtain ⟨value, rest, below⟩ := arg
    simp only
    split <;> simp only [Reading.plain_map_widen, Reading.plain_error, Reading.plain_ok]

/-- A path, then arguments if a `(` follows it. -/
theorem plain_named (param : String) (inner : Reader Expr) (ts : List Token) :
    plain (named param inner ts) =
      (plain (path ts)).bind fun name =>
        match name.2 with
        | .symbol .openParen :: rest =>
          (plain (arguments inner [] rest)).map fun args => (.call name.1 args.1, args.2)
        | rest => .ok (.ofName param name.1, rest) := by
  rw [named, plain_andThen]
  congr
  funext ⟨text, rest⟩
  simp only
  split <;> simp only [Reading.plain_map, Reading.plain_ok]

/-- The kinds of atoms, by their first token. -/
theorem plain_atom (param : String) (inner : Reader Expr) (ts : List Token) :
    plain (atom param inner ts) =
      match ts with
      | .literal l :: rest => .ok (.constant l, rest)
      | .symbol .openParen :: rest => plain (closed inner .closeParen rest)
      | .ident name :: rest => plain (named param inner (.ident name :: rest))
      | ts => .error (.expected .expression ts) := by
  rw [atom.eq_def]
  split <;> simp only [Reading.plain_map_widen, Reading.plain_error, Reading.plain_ok]

/-- One turn of the loop over what is applied to an atom. -/
theorem plain_postfixes (inner : Reader Expr) (left : Expr) (ts : List Token) :
    plain (postfixes inner left ts) =
      match ts with
      | .symbol .dot :: .ident name :: .symbol .openParen :: rest =>
        (plain (arguments inner [] rest)).bind fun args =>
          plain (postfixes inner (.method left name args.1) args.2)
      | .symbol .dot :: .ident name :: rest => plain (postfixes inner (.member left name) rest)
      | .symbol .dot :: rest => .error (.expected .memberName rest)
      | .symbol .openBracket :: rest =>
        (plain (closed inner .closeBracket rest)).bind fun position =>
          plain (postfixes inner (.index left position.1) position.2)
      | ts => .ok (left, ts) := by
  rw [postfixes.eq_def]
  split
  · rw [Reading.plain_map_widen]
    exact Reading.plain_andThen _ _ _ fun _ => rfl
  · simp only [Reading.plain_map_widen]
  · simp only [Reading.plain_error]
  · rw [Reading.plain_map_widen]
    exact Reading.plain_andThen _ _ _ fun _ => rfl
  · simp only [Reading.plain_ok]

/-- An atom, then what is applied to it. -/
theorem plain_applied (param : String) (inner : Reader Expr) (ts : List Token) :
    plain (applied param inner ts) =
      (plain (atom param inner ts)).bind fun r => plain (postfixes inner r.1 r.2) :=
  plain_andThen _ _ _

/-- A prefix operator and its operand, or what a prefix operator does not begin. -/
theorem plain_operand (param : String) (below inner : Reader Expr) (t : Token)
    (rest : List Token) :
    plain (operand param below inner (t :: rest)) =
      match t.unaryOp? with
      | some op => (plain (below rest)).map fun r => (.unary op r.1, r.2)
      | none => plain (applied param inner (t :: rest)) := by
  rw [operand]
  cases t.unaryOp? with
  | some op => exact Reading.plain_map _ _ _
  | none => rfl

/-! ### Operators between operands -/

/-- One turn of the loop over casts and operators. -/
theorem plain_operators (right : Nat → Reader Expr) (castType : Reader String) (p : Nat)
    (left : Expr) (ts : List Token) :
    plain (operators right castType p left ts) =
      match ts with
      | .keywordAs :: rest =>
        (plain (castType rest)).bind fun t =>
          plain (operators right castType p (.cast left t.1) t.2)
      | t :: rest =>
        match t.binaryOp? with
        | none => .ok (left, t :: rest)
        | some op =>
          if op.level < p then .ok (left, t :: rest)
          else
            (plain (right (op.level + 1) rest)).bind fun e =>
              plain (operators right castType p (.binary op left e.1) e.2)
      | [] => .ok (left, []) := by
  rw [operators.eq_def]
  split
  · rw [Reading.plain_map_widen]
    exact Reading.plain_andThen _ _ _ fun _ => rfl
  · rename_i t rest h
    simp only
    cases t.binaryOp? with
    | none => rfl
    | some op =>
        by_cases hlevel : op.level < p
        · simp only [hlevel, if_true, Reading.plain_ok]
        · simp only [hlevel, if_false, Reading.plain_map_widen]
          exact Reading.plain_andThen _ _ _ fun _ => rfl
  · rfl

end Reader

/-! ### Layers -/

/-- **An expression** is an operand and the operators after it. -/
theorem Layer.plain_expr (param : String) (below : Layer) (p : Nat) (ts : List Token) :
    plain ((below.next param).expr p ts) =
      (plain (below.operand ts)).bind fun r =>
        plain (Reader.operators below.expr below.type p r.1 r.2) :=
  Reader.plain_andThen _ _ _

/-! ### Lambdas -/

/-- The head of a lambda between bars. -/
theorem Reader.plain_head_bars (param : String) (rest : List Token) :
    plain (head (.symbol .pipe :: .ident param :: .symbol .pipe :: rest)) = .ok (param, rest) := by
  rw [head, Reading.plain_map_widen, plain_closed, plain_ident]
  simp only [Except.bind, plain_symbol, Except.map]

/-- **A lambda** is a head and a body, which nothing may follow. -/
theorem Lambda.ofTokens_eq (ts : List Token) :
    ofTokens ts =
      (plain (Reader.head ts)).bind fun head =>
        (plain (bodyReader head.1 head.2)).bind fun body =>
          match body.2 with
          | [] => .ok ⟨head.1, body.1⟩
          | t :: rest => .error ⟨t :: rest, .trailing t⟩ := by
  rw [ofTokens]
  cases Reader.head ts with
  | error e => rfl
  | ok head =>
      simp only [Reading.plain_ok, Except.bind]
      cases bodyReader head.value head.rest with
      | error e => rfl
      | ok body =>
          obtain ⟨value, rest, below⟩ := body
          cases rest <;> rfl

end MemberAccess
