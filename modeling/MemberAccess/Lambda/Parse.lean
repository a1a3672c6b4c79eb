import MemberAccess.Lambda.OfText

/-!
# Reading lambdas with a cursor

The readers of lambdas hand on the tokens that they leave, and a piece of a text carries its
characters. A machine does neither. It leaves the tokens where they are and moves a cursor over
them, it counts the levels that are open, up at the beginning of one and down at its end, and it
cuts a piece out of the text from a byte to a byte. Bytes, positions and counts are words, of which
there are finitely many: a sum can be too large, a difference negative, and a cut can hit a
character in the middle. Then the machine crashes. Its loops and its readers, which call each other,
end for no reason that they can see. So they have a budget of turns and of calls, and a run that
exceeds it has not ended.

Three readers recur, and each of them on a level of its own: that of expressions, that of operands
behind a prefix operator, and that of types behind the `<` of type arguments. They say so: what runs
within a recursion is what runs from where its level is open to where it is closed. A call that
finds no level left is rejected before it becomes a recursion. To the machine this makes no
difference.

## Main definitions

* `Bytes`: arithmetic of words, and cuts of a text.
* `Bytes.scanFrom`: the tokens of a text, or the bytes of the first piece that is none.
* `Tape`, `Tape.Cursor`: the tokens, and where the machine is in them.
* `Parse`: a step of the machine, which may be rejected, crash or exceed its budget.
* `MonadParse`: what takes the steps of the machine. The readers do not ask for more.
* `Tape.type`, `Tape.expr`, `Tape.operand`, `Tape.lambda`: the readers.
* `Lambda.parse`: the lambda of a text.
-/

namespace MemberAccess

/-- **Why a machine crashes:** a sum above the words, a difference below them, or a cut that does
not fall between characters. -/
inductive Crash where
  | overflow
  | underflow
  | cut
deriving DecidableEq

/-- A range of bytes. -/
structure Span where
  start : Nat
  stop : Nat
deriving DecidableEq

/-! ### Words and bytes -/

namespace Bytes

/-- The sum of two words, of which there are `capacity`. -/
def add (capacity m n : Nat) : Except Crash Nat :=
  if m + n < capacity then .ok (m + n) else .error .overflow

/-- The difference of two words. -/
def sub (m n : Nat) : Except Crash Nat :=
  if n ≤ m then .ok (m - n) else .error .underflow

/-- Cuts a text at the byte `n`. -/
def split (n : Nat) : List Char → Except Crash (List Char × List Char)
  | [] => if n = 0 then .ok ([], []) else .error .cut
  | c :: cs =>
    if n = 0 then .ok ([], c :: cs)
    else if c.utf8Size ≤ n then
      (split (n - c.utf8Size) cs).map fun parts => (c :: parts.1, parts.2)
    else .error .cut

/-- Cuts out the characters from a byte to another, which is not before it. -/
def slice (cs : List Char) (span : Span) : Except Crash (List Char) := do
  let size ← (sub span.stop span.start).mapError fun _ => .cut
  let parts ← split span.start cs
  let piece ← split size parts.2
  return piece.1

/-- Resolves the escapes of a string, if all denote a character. -/
def resolve : List Char → Option (List Char)
  | [] => some []
  | '\\' :: c :: more =>
    match (StringPiece.escaped c).value? with
    | none => none
    | some d => (resolve more).map (d :: ·)
  | c :: more => if c = '\\' then none else (resolve more).map (c :: ·)

/-- What a string between quotes denotes: the text between the first byte and the last, with its
escapes resolved. -/
def unescape (quoted : List Char) : Except Crash (Option (List Char)) := do
  let stop ← sub (byteLength quoted) 1
  let inner ← slice quoted ⟨1, stop⟩
  return resolve inner

/-- The token of the first piece of the text that begins with `c`, if it is one. A string that is
closed is a token if its escapes can be resolved. -/
def token? (c : Char) (more : List Char) : Except Crash (Option Token) := do
  let piece := Lexeme.first c more
  if c = '"' ∧ (StringPiece.split more).2.head? = some '"' then
    let chars? ← unescape piece.slice
    return chars?.map fun chars => .literal (.string (String.ofList chars))
  else return piece.token?

/-- The tokens of a text that begins at the byte `offset`, or the bytes of the first piece that is
no token. -/
def scanFrom (capacity offset : Nat) : List Char → Except Crash (Except Span (List Placed))
  | [] => .ok (.ok [])
  | c :: more =>
    if isBlank c then do
      let next ← add capacity offset c.utf8Size
      scanFrom capacity next more
    else do
      let piece := Lexeme.first c more
      let stop ← add capacity offset (byteLength piece.slice)
      match ← token? c more with
      | none => return .error ⟨offset, stop⟩
      | some token =>
        let later ← scanFrom capacity stop piece.rest
        return later.map (⟨token, offset, stop⟩ :: ·)
termination_by cs => cs.length
decreasing_by
  · simp
  · exact Lexeme.rest_first_length c more

end Bytes

/-! ### The machine -/

/-- The position of the next token, and the number of levels that are open. -/
structure Tape.Cursor where
  position : Nat
  depth : Nat
deriving DecidableEq

/-- Why a run ends without a value. -/
inductive Halt where
  | rejected (e : SyntaxError)
  | crashed (c : Crash)
deriving DecidableEq

/-- **A step of the machine,** which may not end within its budget. -/
abbrev Parse := StateT Tape.Cursor (ExceptT Halt Option)

/-- The end of a turn of a loop: another turn, or the end of the loop. -/
inductive Turn (α β : Type) where
  | again (b : β)
  | stop (a : α)

namespace Parse

variable {α β : Type}

/-- A crash ends the run. -/
def word : Except Crash α → Parse α
  | .ok a => pure a
  | .error c => throw (.crashed c)

/-- The budget is spent. -/
def unfinished : Parse α :=
  fun _ => (none : Option (Except Halt (α × Tape.Cursor)))

end Parse

/-- **What recurs:** the readers of expressions, of operands behind a prefix operator, and of type
arguments. -/
inductive Recursion where
  | expr
  | prefixOp
  | typeArgument
deriving DecidableEq

/-- **What takes the steps of the machine,** and is told which recursions it is within. -/
class MonadParse (m : Type → Type) where
  /-- Takes a step. -/
  step {α : Type} : Parse α → m α
  /-- Runs within one more recursion. -/
  within {α : Type} : Recursion → m α → m α

/-- The machine takes its steps, whatever it is within. -/
instance : MonadParse Parse where
  step s := s
  within _ run := run

/-- To the machine a step is the step. -/
@[simp] theorem Parse.step_eq {α : Type} (s : Parse α) : MonadParse.step s = s :=
  rfl

/-- To the machine it makes no difference what it is within. -/
@[simp] theorem Parse.within_eq {α : Type} (recursion : Recursion) (run : Parse α) :
    MonadParse.within recursion run = run :=
  rfl

namespace MonadParse

variable {m : Type → Type} [Monad m] [MonadParse m] {α β : Type}

/-- A loop of at most `budget` turns. -/
def loop (turn : β → m (Turn α β)) : (budget : Nat) → β → m α
  | 0, _ => step Parse.unfinished
  | budget + 1, b => do
    match ← turn b with
    | .again b => loop turn budget b
    | .stop a => return a

end MonadParse

/-- **The tokens before the machine,** the length of their text, the number of words, and the budget
of each loop. -/
structure Tape where
  capacity : Nat
  budget : Nat
  tokens : List Placed
  size : Nat

namespace Tape

variable (tape : Tape)

/-! ### Tokens -/

/-- The token at a position. -/
def tokenAt (position : Nat) : Option Token :=
  tape.tokens[position]?.map Placed.token

/-- The first byte of the token at a position, or the end of the text. -/
def offsetAt (position : Nat) : Nat :=
  (tape.tokens[position]?.map Placed.start).getD tape.size

/-- The next token. -/
def peek : Parse (Option Token) := do
  return tape.tokenAt (← get).position

/-- The token after the next. -/
def peekSecond : Parse (Option Token) := do
  let position ← Parse.word (Bytes.add tape.capacity (← get).position 1)
  return tape.tokenAt position

/-- Goes on by `n` tokens. -/
def move (n : Nat) : Parse Unit := do
  let cursor ← get
  let position ← Parse.word (Bytes.add tape.capacity cursor.position n)
  set { cursor with position }

/-- Goes on by a token, if there is one. -/
def advance : Parse Unit := do
  if (← tape.peek).isSome then tape.move 1

/-- Rejects the text at the next token. -/
def reject {α : Type} (fault : SyntaxFault) : Parse α := do
  throw (.rejected ⟨tape.offsetAt (← get).position, fault⟩)

/-- Rejects the next token. -/
def unexpected {α : Type} (what : Expectation) : Parse α := do
  tape.reject (.expected what (← tape.peek))

/-- Reads the symbol `s`. -/
def expect (s : Symbol) : Parse Unit := do
  if (← tape.peek) = some (.symbol s) then tape.move 1 else tape.unexpected (.symbol s)

/-- Reads an identifier. -/
def ident (what : Expectation) : Parse String := do
  match ← tape.peek with
  | some (.ident name) =>
    tape.move 1
    return name
  | _ => tape.unexpected what

/-! ### Levels -/

/-- Opens a level. -/
def descend : Parse Unit := do
  let cursor ← get
  if cursor.depth = Lambda.nestingLimit then tape.reject .tooDeep
  else
    let depth ← Parse.word (Bytes.add tape.capacity cursor.depth 1)
    set { cursor with depth }

/-- Closes a level. -/
def ascend : Parse Unit := do
  let cursor ← get
  let depth ← Parse.word (Bytes.sub cursor.depth 1)
  set { cursor with depth }

section

open MonadParse (step within loop)

variable {m : Type → Type} [Monad m] [MonadParse m]

/-! ### Paths and types -/

/-- A further segment of a path. -/
def furtherSegment (path : String) : m (Turn String String) := do
  if (← step tape.peek) = some (.symbol .colons) then
    step tape.advance
    let name ← step (tape.ident .segment)
    return .again (path ++ "::" ++ name)
  else return .stop path

/-- Names separated by `::`. -/
def path : m String := do
  loop tape.furtherSegment tape.budget (← step (tape.ident .name))

/-- A type argument, appended to the text of a type. The closing `>` closes the level. -/
def typeArgument (type : m String) (text : String) : m (Turn String String) := do
  let argument ← within .typeArgument type
  match ← step tape.peek with
  | some (.symbol .comma) =>
    step tape.advance
    return .again (text ++ argument ++ ", ")
  | some (.symbol .greater) =>
    step tape.advance
    step ascend
    return .stop (text ++ argument ++ ">")
  | _ => step (tape.unexpected .typeArgumentEnd)

/-- A path, perhaps with type arguments, within so many calls. -/
def type : (calls : Nat) → m String
  | 0 => step Parse.unfinished
  | calls + 1 => do
    let name ← tape.path
    if (← step tape.peek) = some (.symbol .less) then
      step tape.advance
      step tape.descend
      loop (tape.typeArgument (type calls)) tape.budget (name ++ "<")
    else return name

/-! ### Operands -/

/-- An argument of a call, after those already read. -/
def argument (expr : m Expr) (args : List Expr) : m (Turn (List Expr) (List Expr)) := do
  if (← step tape.peek) = some (.symbol .closeParen) then return .stop args.reverse
  else
    let arg ← expr
    if (← step tape.peek) = some (.symbol .closeParen) then return .again (arg :: args)
    else
      step (tape.expect .comma)
      return .again (arg :: args)

/-- The arguments of a call between parentheses. -/
def call (expr : m Expr) : m (List Expr) := do
  step (tape.expect .openParen)
  let args ← loop (tape.argument expr) tape.budget []
  step (tape.expect .closeParen)
  return args

/-- A path, or a call of one. -/
def named (param : String) (expr : m Expr) : m Expr := do
  let name ← tape.path
  if (← step tape.peek) = some (.symbol .openParen) then
    return .call name (← tape.call expr)
  else return .ofName param name

/-- A constant, a name, a call, or an expression between parentheses. -/
def atom (param : String) (expr : m Expr) : m Expr := do
  match ← step tape.peek with
  | some (.literal l) =>
    step tape.advance
    return .constant l
  | some (.symbol .openParen) =>
    step tape.advance
    let e ← expr
    step (tape.expect .closeParen)
    return e
  | some (.ident _) => tape.named param expr
  | _ => step (tape.unexpected .expression)

/-- A member access, a method call or an index after an operand. -/
def application (expr : m Expr) (left : Expr) : m (Turn Expr Expr) := do
  match ← step tape.peek with
  | some (.symbol .dot) =>
    step tape.advance
    let name ← step (tape.ident .memberName)
    if (← step tape.peek) = some (.symbol .openParen) then
      let args ← tape.call expr
      return .again (.method left name args)
    else return .again (.member left name)
  | some (.symbol .openBracket) =>
    step tape.advance
    let position ← expr
    step (tape.expect .closeBracket)
    return .again (.index left position)
  | _ => return .stop left

/-- An atom and what is applied to it. -/
def applied (param : String) (expr : m Expr) : m Expr := do
  let e ← tape.atom param expr
  loop (tape.application expr) tape.budget e

/-! ### Expressions -/

/-- A cast, or an operator of level `p` or higher with its right operand, after a left operand. -/
def operator (expr : Nat → m Expr) (type : m String) (p : Nat) (left : Expr) :
    m (Turn Expr Expr) := do
  match ← step tape.peek with
  | none => return .stop left
  | some .keywordAs =>
    if castLevel < p then return .stop left
    else
      step tape.advance
      let name ← type
      return .again (.cast left name)
  | some t =>
    match t.binaryOp? with
    | none => return .stop left
    | some op =>
      if op.level < p then return .stop left
      else
        step tape.advance
        let right ← expr (op.level + 1)
        return .again (.binary op left right)

/-- An operand, and the casts and operators of level `p` or higher after it. -/
def operators (operand : m Expr) (expr : Nat → m Expr) (type : m String) (p : Nat) : m Expr := do
  loop (tape.operator expr type p) tape.budget (← operand)

mutual

/-- An expression of level `p` or higher, within so many calls. It opens a level. -/
def expr (param : String) : (calls : Nat) → (p : Nat) → m Expr
  | 0, _ => step Parse.unfinished
  | calls + 1, p => do
    step tape.descend
    let e ← within .expr
      (tape.operators (operand param calls) (fun p => expr param calls p) (tape.type calls) p)
    step ascend
    return e

/-- An operand, within so many calls: prefix operators, each of which opens a level, before an atom
and what is applied to it. -/
def operand (param : String) : (calls : Nat) → m Expr
  | 0 => step Parse.unfinished
  | calls + 1 => do
    match (← step tape.peek).bind Token.unaryOp? with
    | some op =>
      step tape.advance
      step tape.descend
      let e ← within .prefixOp (operand param calls)
      step ascend
      return .unary op e
    | none => tape.applied param (expr param calls 0)

end

end

/-! ### Lambdas -/

/-- The head of a lambda, whose value is the parameter. -/
def head : Parse String := do
  match ← tape.peek, ← tape.peekSecond with
  | some (.symbol .pipe), _ =>
    tape.advance
    let name ← tape.ident .paramName
    tape.expect .pipe
    return name
  | some (.ident name), some (.symbol .arrow) =>
    tape.move 2
    return name
  | _, _ => tape.unexpected .lambda

/-- A lambda, which nothing may follow. -/
def lambda : Parse Lambda := do
  let param ← tape.head
  let body ← tape.expr param tape.budget 0
  match ← tape.peek with
  | some t => tape.reject (.trailing t)
  | none => return ⟨param, body⟩

end Tape

/-- **The lambda that a text spells,** on a machine with `capacity` words, within a budget. A piece
that is no token is cut out of the text for the message. -/
def Lambda.parse (capacity budget : Nat) (source : String) : Option (Except Halt Lambda) :=
  match Bytes.scanFrom capacity 0 source.toList with
  | .error crash => some (.error (.crashed crash))
  | .ok (.error span) =>
    match Bytes.slice source.toList span with
    | .error crash => some (.error (.crashed crash))
    | .ok piece => some (.error (.rejected ⟨span.start, .unrecognized piece⟩))
  | .ok (.ok tokens) =>
    ((Tape.lambda ⟨capacity, budget, tokens, source.utf8ByteSize⟩).run' ⟨0, 0⟩).run

end MemberAccess
