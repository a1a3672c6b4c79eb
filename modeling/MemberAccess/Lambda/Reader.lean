import MemberAccess.Lambda.SyntaxError

/-!
# Readers of tokens

A reader takes a value from the front of a list of tokens. It consumes at least one token, which
its result records, so that a loop over a reader ends. A reader that fails gives the tokens that
it has not consumed; the first of them is where the text is wrong.

## Main definitions

* `Rejection`: a fault and the tokens from the wrong one on.
* `Reading`: a value and the tokens that follow, fewer than a bound.
* `Reader`: the readers.
* `Reader.symbol`, `Reader.ident`: the readers of one token.
-/

namespace MemberAccess

/-- **A failed reading:** the tokens from the wrong one on, and what is wrong. -/
structure Rejection where
  rest : List Token
  fault : SyntaxFault
deriving DecidableEq

/-- The rejection of the first of the tokens `rest`, or of the end of the text. -/
def Rejection.expected (what : Expectation) (rest : List Token) : Rejection :=
  ⟨rest, .expected what rest.head?⟩

/-- **A reading:** a value, and fewer than `bound` tokens that follow it. -/
structure Reading (α : Type) (bound : Nat) where
  value : α
  rest : List Token
  below : rest.length < bound

namespace Reading

variable {α β : Type}

/-- The same reading under a larger bound. -/
def widen {m n : Nat} (h : m ≤ n) (r : Reading α m) : Reading α n :=
  ⟨r.value, r.rest, Nat.lt_of_lt_of_le r.below h⟩

/-- Changes the value of a reading. -/
def map {n : Nat} (f : α → β) (r : Reading α n) : Reading β n :=
  ⟨f r.value, r.rest, r.below⟩

/-- Goes on with what follows a reading. -/
def andThen {n : Nat} (first : Except Rejection (Reading α n))
    (next : (a : Reading α n) → Except Rejection (Reading β (a.rest.length + 1))) :
    Except Rejection (Reading β n) :=
  match first with
  | .error e => .error e
  | .ok a => (next a).map (widen a.below)

end Reading

/-- **A reader** consumes some tokens, or rejects one. -/
abbrev Reader (α : Type) := (ts : List Token) → Except Rejection (Reading α ts.length)

/-- A continuation of a reader, which may consume nothing. -/
abbrev Continuation (α : Type) := (ts : List Token) → Except Rejection (Reading α (ts.length + 1))

namespace Reader

/-- What follows a token is not longer than what begins with it. -/
theorem length_le_cons (t : Token) (ts : List Token) : ts.length ≤ (t :: ts).length :=
  Nat.le_succ _

/-- What follows two tokens is shorter than what begins with them. -/
theorem length_lt_cons_cons (s t : Token) (ts : List Token) :
    ts.length < (s :: t :: ts).length :=
  Nat.lt_succ_of_le (Nat.le_succ _)

/-- Reads a value, then goes on with what follows it. -/
def andThen {α β : Type} (first : Reader α) (next : α → Continuation β) : Reader β := fun ts =>
  Reading.andThen (first ts) fun a => next a.value a.rest

/-- Rejects whatever comes, because too many levels are open. -/
def tooDeep {α : Type} : Reader α := fun ts => .error ⟨ts, .tooDeep⟩

/-- Reads the symbol `s`. -/
def symbol (s : Symbol) : Reader Unit := fun
  | t :: rest =>
    if t = .symbol s then .ok ⟨(), rest, by simp⟩
    else .error (.expected (.symbol s) (t :: rest))
  | [] => .error (.expected (.symbol s) [])

/-- Reads an identifier. -/
def ident (what : Expectation) : Reader String := fun
  | .ident name :: rest => .ok ⟨name, rest, by simp⟩
  | ts => .error (.expected what ts)

/-- A value, then the symbol that closes it. -/
def closed {α : Type} (inner : Reader α) (close : Symbol) : Reader α :=
  inner.andThen fun a ts =>
    (symbol close ts).map fun r => (r.map fun _ => a).widen (Nat.le_succ _)

end Reader

end MemberAccess
