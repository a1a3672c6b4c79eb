import MemberAccess.Lambda.Expr
import MemberAccess.Lambda.Reader

/-!
# Reading expressions

Binary operators are read by precedence climbing: an expression of level `p` is an operand and then
every operator of level `p` or higher, whose right operand has the next level, so that operators
associate to the left. A cast binds tighter than every binary operator, a prefix operator tighter
than a cast, and member accesses, calls and indices bind tightest.

An expression opens a level of nesting, and so do a prefix operator and a list of type arguments.
Readers are built from the bottom up, one layer for each level that may still be opened: the
readers of a layer call those of the layer below wherever they open a level, and below the lowest
layer everything is nested too deeply. Within a layer the loops end because each turn consumes a
token.

## Main definitions

* `Reader.path`: a path of names.
* `Layer`: the readers of expressions, of operands and of types.
* `Layer.next`: a layer over the one below it.
* `Layer.ofRoom`: the readers that may open a number of levels.
-/

namespace MemberAccess

/-! ### Operators -/

/-- The operator between operands that a symbol stands for. -/
def Symbol.binaryOp? : Symbol → Option BinaryOp
  | orOr => some .or
  | andAnd => some .and
  | equals => some .eq
  | differs => some .ne
  | less => some .lt
  | atMost => some .le
  | greater => some .gt
  | atLeast => some .ge
  | plus => some .add
  | minus => some .sub
  | star => some .mul
  | slash => some .div
  | percent => some .rem
  | _ => none

/-- The operator before an operand that a symbol stands for. -/
def Symbol.unaryOp? : Symbol → Option UnaryOp
  | minus => some .negate
  | bang => some .complement
  | _ => none

/-- The operator between operands that a token stands for. -/
def Token.binaryOp? : Token → Option BinaryOp
  | symbol s => s.binaryOp?
  | _ => none

/-- The operator before an operand that a token stands for. -/
def Token.unaryOp? : Token → Option UnaryOp
  | symbol s => s.unaryOp?
  | _ => none

/-- The node of a path: the parameter if it is its name, and a free name otherwise. The parameter
`_` binds nothing. -/
def Expr.ofName (param path : String) : Expr :=
  if param ≠ "_" ∧ path = param then .parameter path else .free path

namespace Reader

/-! ### Paths and types -/

/-- The further segments of a path. -/
def segments (path : String) : Continuation String
  | .symbol .colons :: .ident name :: rest =>
    (segments (path ++ "::" ++ name) rest).map (·.widen (by simp))
  | .symbol .colons :: rest => .error (.expected .segment rest)
  | ts => .ok ⟨path, ts, Nat.lt_succ_self _⟩

/-- Names separated by `::`, kept together. -/
def path : Reader String :=
  (ident .name).andThen segments

/-- Type arguments after the opening `<`, up to the closing `>`, appended to the text of a type. -/
def typeArguments (inner : Reader String) (text : String) : Reader String := fun ts =>
  Reading.andThen (inner ts) fun argument =>
    have shorter := argument.below
    match h : argument.rest with
    | .symbol .comma :: rest =>
      (typeArguments inner (text ++ argument.value ++ ", ") rest).map
        (·.widen (by grind))
    | .symbol .greater :: rest =>
      .ok ⟨text ++ argument.value ++ ">", rest, by grind⟩
    | rest => .error (.expected .typeArgumentEnd rest)
termination_by ts => ts.length
decreasing_by simp only [h, List.length_cons] at shorter; omega

/-- A type: a path, and type arguments read by `inner`. -/
def type (inner : Reader String) : Reader String :=
  path.andThen fun text ts =>
    match ts with
    | .symbol .less :: rest =>
      (typeArguments inner (text ++ "<") rest).map (·.widen (by grind))
    | ts => .ok ⟨text, ts, Nat.lt_succ_self _⟩

/-! ### Operands -/

/-- The arguments of a call after the opening parenthesis, after those already read. They are
separated by commas, and a comma may follow the last. -/
def arguments (inner : Reader Expr) (args : List Expr) : Reader (List Expr)
  | .symbol .closeParen :: rest => .ok ⟨args.reverse, rest, by simp⟩
  | ts =>
    Reading.andThen (inner ts) fun arg =>
      have shorter := arg.below
      match h : arg.rest with
      | .symbol .closeParen :: rest => .ok ⟨(arg.value :: args).reverse, rest, by grind⟩
      | .symbol .comma :: rest =>
        (arguments inner (arg.value :: args) rest).map (·.widen (by grind))
      | rest => .error (.expected (.symbol .comma) rest)
termination_by ts => ts.length
decreasing_by simp only [h, List.length_cons] at shorter; omega

/-- A path, or a call of one. -/
def named (param : String) (inner : Reader Expr) : Reader Expr :=
  path.andThen fun name ts =>
    match ts with
    | .symbol .openParen :: rest =>
      (arguments inner [] rest).map fun r => (r.map (.call name)).widen (by grind)
    | ts => .ok ⟨.ofName param name, ts, Nat.lt_succ_self _⟩

/-- A constant, a name, a call, or an expression between parentheses. -/
def atom (param : String) (inner : Reader Expr) : Reader Expr
  | .literal l :: rest => .ok ⟨.constant l, rest, by simp⟩
  | .symbol .openParen :: rest => (closed inner .closeParen rest).map (·.widen (by simp))
  | .ident name :: rest => named param inner (.ident name :: rest)
  | ts => .error (.expected .expression ts)

/-- The member accesses, method calls and indices after an operand. -/
def postfixes (inner : Reader Expr) (left : Expr) : Continuation Expr
  | .symbol .dot :: .ident name :: .symbol .openParen :: rest =>
    (Reading.andThen (arguments inner [] rest) fun args =>
      have shorter := args.below
      postfixes inner (.method left name args.value) args.rest).map (·.widen (by grind))
  | .symbol .dot :: .ident name :: rest =>
    (postfixes inner (.member left name) rest).map (·.widen (by simp))
  | .symbol .dot :: rest => .error (.expected .memberName rest)
  | .symbol .openBracket :: rest =>
    (Reading.andThen (closed inner .closeBracket rest) fun position =>
      have shorter := position.below
      postfixes inner (.index left position.value) position.rest).map (·.widen (by grind))
  | ts => .ok ⟨left, ts, Nat.lt_succ_self _⟩
termination_by ts => ts.length
decreasing_by
  all_goals grind

/-- An atom and what is applied to it. -/
def applied (param : String) (inner : Reader Expr) : Reader Expr :=
  (atom param inner).andThen (postfixes inner)

/-- An operand: prefix operators, each of which opens a level, before an atom and what is applied
to it. -/
def operand (param : String) (below inner : Reader Expr) : Reader Expr
  | t :: rest =>
    match t.unaryOp? with
    | some op => (below rest).map fun r => (r.map (.unary op)).widen (by simp)
    | none => applied param inner (t :: rest)
  | [] => applied param inner []

/-! ### Operators between operands -/

/-- The casts and the operators of level `p` or higher after a left operand. -/
def operators (right : Nat → Reader Expr) (castType : Reader String) (p : Nat) (left : Expr) :
    Continuation Expr
  | .keywordAs :: rest =>
    (Reading.andThen (castType rest) fun t =>
      have shorter := t.below
      operators right castType p (.cast left t.value) t.rest).map (·.widen (by grind))
  | t :: rest =>
    match t.binaryOp? with
    | none => .ok ⟨left, t :: rest, Nat.lt_succ_self _⟩
    | some op =>
      if op.level < p then .ok ⟨left, t :: rest, Nat.lt_succ_self _⟩
      else
        (Reading.andThen (right (op.level + 1) rest) fun e =>
          have shorter := e.below
          operators right castType p (.binary op left e.value) e.rest).map
            (·.widen (by grind))
  | [] => .ok ⟨left, [], Nat.lt_succ_self _⟩
termination_by ts => ts.length
decreasing_by all_goals grind

end Reader

/-! ### Layers -/

/-- **A layer of readers:** of an expression of a level, of an operand, and of a type. -/
structure Layer where
  expr : Nat → Reader Expr
  operand : Reader Expr
  type : Reader String

namespace Layer

/-- Below the lowest layer no level may be opened. -/
def bottom : Layer :=
  ⟨fun _ => Reader.tooDeep, Reader.tooDeep, Reader.tooDeep⟩

/-- **The layer over `below`.** -/
def next (param : String) (below : Layer) : Layer :=
  let expr p := below.operand.andThen (Reader.operators below.expr below.type p)
  ⟨expr, Reader.operand param below.operand (expr 0), Reader.type below.type⟩

/-- **The readers that may open `room` levels,** in an expression over the parameter `param`. -/
def ofRoom (param : String) : (room : Nat) → Layer
  | 0 => bottom.next param
  | room + 1 => (ofRoom param room).next param

end Layer

end MemberAccess
