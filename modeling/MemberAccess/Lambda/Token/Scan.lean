import MemberAccess.Lambda.Token
import MemberAccess.Text.Identifier

/-!
# Splitting a text into tokens

Blanks separate tokens and belong to none. Elsewhere the longest token that the text begins with
is taken. Where no token can begin, or where a string or an integer is malformed, the text is
rejected as a whole, and the offending piece is reported with its place. Places are counted in
bytes of the UTF-8 encoding.

## Main definitions

* `Lexeme`: a piece of the text, with the token that it is, if it is one.
* `Lexeme.first`: the piece at the front of a text that does not begin with a blank.
* `Placed`: a token with the bytes that it covers.
* `scan`: the tokens of a text.
-/

namespace MemberAccess

open Text

/-- Whether `c` separates tokens: a space, a tab, a line feed or a carriage return. -/
def isBlank (c : Char) : Bool :=
  c = ' ' || c = '\t' || c = '\n' || c = '\r'

/-- The length of a run of characters in UTF-8. -/
def byteLength : List Char → Nat
  | [] => 0
  | c :: cs => c.utf8Size + byteLength cs

/-- **A piece of a text,** with what follows it. A piece that is no token is unrecognized. -/
structure Lexeme where
  token? : Option Token
  slice : List Char
  rest : List Char
deriving DecidableEq

namespace Lexeme

/-! ### One class of tokens at a time -/

/-- The token of a word: a keyword, a truth value or an identifier. -/
def word (name : List Char) : Token :=
  if name = ['a', 's'] then .keywordAs
  else if name = ['t', 'r', 'u', 'e'] then .literal (.bool true)
  else if name = ['f', 'a', 'l', 's', 'e'] then .literal (.bool false)
  else .ident (String.ofList name)

/-- The piece of a word that begins with `c`. -/
def ofWord (c : Char) (more : List Char) : Lexeme :=
  let name := c :: more.takeWhile continuesIdentifier
  ⟨some (word name), name, more.dropWhile continuesIdentifier⟩

/-- The piece of a raw identifier, whose name begins with `c`. The mark `r#` makes a keyword an
identifier and is not part of the name. -/
def ofRawWord (c : Char) (more : List Char) : Lexeme :=
  let name := c :: more.takeWhile continuesIdentifier
  ⟨some (.ident (String.ofList name)), 'r' :: '#' :: name, more.dropWhile continuesIdentifier⟩

/-- Splits the exponent from a text after the digits of a fraction: `e`, an optional sign and at
least one digit. The parts are the marks, the digits and the rest. -/
def splitExponent : List Char → List Char × List Char × List Char
  | [] => ([], [], [])
  | c :: more =>
    let sign := match more with
      | s :: _ => if s = '+' ∨ s = '-' then [s] else []
      | [] => []
    let digits := (more.drop sign.length).takeWhile Digits.isDigit
    if (c = 'e' ∨ c = 'E') ∧ digits ≠ [] then
      (c :: sign, digits, (more.drop sign.length).dropWhile Digits.isDigit)
    else ([], [], c :: more)

/-- The value of a split exponent. -/
def exponentValue (marks digits : List Char) : Int :=
  if '-' ∈ marks then -Digits.toNat digits else Digits.toNat digits

/-- The piece of a fraction: the digits `whole`, a point, and `more`, which begins with a
digit. -/
def ofFraction (whole more : List Char) : Lexeme :=
  let part := more.takeWhile Digits.isDigit
  let exponent := splitExponent (more.dropWhile Digits.isDigit)
  let value := exponentValue exponent.1 exponent.2.1
  ⟨some (.literal (.float (Binary64.ofNumeral false whole part value))),
    whole ++ '.' :: part ++ exponent.1 ++ exponent.2.1, exponent.2.2⟩

/-- The largest integer constant, `2 ^ 63 - 1`. -/
def intLimit : Nat := 9223372036854775807

/-- The piece of a run of digits. A number above the largest integer is no token. -/
def ofDigits (digits rest : List Char) : Lexeme :=
  let n := Digits.toNat digits
  ⟨if n ≤ intLimit then some (.literal (.int (Int64.ofNat n))) else none, digits, rest⟩

/-- The piece of a number that begins with the digit `c`. A point makes it a fraction only if a
digit follows. -/
def ofNumber (c : Char) (more : List Char) : Lexeme :=
  let digits := c :: more.takeWhile Digits.isDigit
  match more.dropWhile Digits.isDigit with
  | '.' :: d :: rest =>
    if Digits.isDigit d then ofFraction digits (d :: rest) else ofDigits digits ('.' :: d :: rest)
  | rest => ofDigits digits rest

/-- The piece of a string, after its opening quote. An unclosed string is no token, and neither is
one with an escape that denotes nothing. -/
def ofString (more : List Char) : Lexeme :=
  let parts := StringPiece.split more
  let text := '"' :: parts.1.flatMap StringPiece.text
  match parts.2 with
  | '"' :: rest =>
    ⟨(StringPiece.denote? parts.1).map fun s => .literal (.string (String.ofList s)),
      text ++ ['"'], rest⟩
  | rest => ⟨none, text, rest⟩

/-- The piece of a symbol that begins with `c`, of two characters if there is one; else the
character alone, which is no token. -/
def ofSymbol (c : Char) (more : List Char) : Lexeme :=
  match more with
  | d :: rest =>
    match Symbol.ofPair? c d with
    | some s => ⟨some (.symbol s), [c, d], rest⟩
    | none => ⟨(Symbol.ofChar? c).map .symbol, [c], d :: rest⟩
  | [] => ⟨(Symbol.ofChar? c).map .symbol, [c], []⟩

/-- **The first piece** of the text that begins with `c`, which is not a blank. -/
def first (c : Char) (more : List Char) : Lexeme :=
  if startsIdentifier c then
    match more with
    | '#' :: d :: rest =>
      if c = 'r' ∧ startsIdentifier d then ofRawWord d rest else ofWord c more
    | _ => ofWord c more
  else if Digits.isDigit c then ofNumber c more
  else if c = '"' then ofString more
  else ofSymbol c more

/-! ### Pieces lose nothing -/

/-- A piece is not empty, and with what follows it makes up the text. -/
def Splits (l : Lexeme) (cs : List Char) : Prop :=
  l.slice ≠ [] ∧ l.slice ++ l.rest = cs

/-- A word is split off the text that it begins. -/
theorem splits_ofWord (c : Char) (more : List Char) : (ofWord c more).Splits (c :: more) := by
  simp [Splits, ofWord, List.takeWhile_append_dropWhile]

/-- A raw word is split off the text that it begins, with its mark. -/
theorem splits_ofRawWord (c : Char) (more : List Char) :
    (ofRawWord c more).Splits ('r' :: '#' :: c :: more) := by
  simp [Splits, ofRawWord, List.takeWhile_append_dropWhile]

/-- The mark of an exponent, its digits and what follows them make up the text again. -/
theorem splitExponent_append (cs : List Char) :
    (splitExponent cs).1 ++ (splitExponent cs).2.1 ++ (splitExponent cs).2.2 = cs := by
  cases cs with
  | nil => rfl
  | cons c more =>
    cases more with
    | nil => simp [splitExponent]
    | cons s rest =>
      by_cases hs : s = '+' ∨ s = '-' <;>
        simp only [splitExponent, hs, if_true, if_false, List.length_cons, List.length_nil,
          Nat.zero_add, List.drop_succ_cons, List.drop_zero] <;> split <;>
        simp [List.takeWhile_append_dropWhile]

/-- Digits are split off the text that they begin. -/
theorem splits_ofDigits (digits rest : List Char) (h : digits ≠ []) :
    (ofDigits digits rest).Splits (digits ++ rest) :=
  ⟨h, rfl⟩

/-- A number with a point is split off the text that it begins. -/
theorem splits_ofFraction (whole more : List Char) :
    (ofFraction whole more).Splits (whole ++ '.' :: more) := by
  refine ⟨by simp [ofFraction], ?_⟩
  have hx := splitExponent_append (more.dropWhile Digits.isDigit)
  have hm := @List.takeWhile_append_dropWhile _ Digits.isDigit more
  simp only [ofFraction, List.append_assoc, List.cons_append] at hx ⊢
  rw [hx, hm]

/-- A number is split off the text that its first digit begins. -/
theorem splits_ofNumber (c : Char) (more : List Char) : (ofNumber c more).Splits (c :: more) := by
  have hm := @List.takeWhile_append_dropWhile _ Digits.isDigit more
  unfold ofNumber
  split
  next d rest hd =>
    rw [hd] at hm
    split
    · simpa [hm] using splits_ofFraction (c :: more.takeWhile Digits.isDigit) (d :: rest)
    · simpa [hm] using splits_ofDigits (c :: more.takeWhile Digits.isDigit) ('.' :: d :: rest)
        (List.cons_ne_nil _ _)
  next =>
    simpa [hm] using splits_ofDigits (c :: more.takeWhile Digits.isDigit)
      (more.dropWhile Digits.isDigit) (List.cons_ne_nil _ _)

/-- A string is split off the text that its quote begins, closed or not. -/
theorem splits_ofString (more : List Char) : (ofString more).Splits ('"' :: more) := by
  have hs := StringPiece.flatMap_text_split more
  simp only [ofString]
  split
  next rest h => simpa [Splits, h] using hs
  next => simpa [Splits] using hs

/-- A symbol is split off the text that it begins, or its first character is. -/
theorem splits_ofSymbol (c : Char) (more : List Char) : (ofSymbol c more).Splits (c :: more) := by
  unfold ofSymbol
  split
  · split <;> simp [Splits]
  · simp [Splits]

/-- **The first piece splits the text.** -/
theorem splits_first (c : Char) (more : List Char) : (first c more).Splits (c :: more) := by
  unfold first
  split
  · split
    · split
      next h => exact h.1 ▸ splits_ofRawWord _ _
      next => exact splits_ofWord _ _
    · exact splits_ofWord _ _
  · split
    · exact splits_ofNumber _ _
    · split
      next h => exact h ▸ splits_ofString _
      next => exact splits_ofSymbol _ _

/-- The first lexeme takes at least one character, so that scanning comes to an end. -/
theorem rest_first_length (c : Char) (more : List Char) :
    (first c more).rest.length < (c :: more).length := by
  obtain ⟨hne, happ⟩ := splits_first c more
  rw [← happ, List.length_append]
  have := List.length_pos_iff.2 hne
  omega

end Lexeme

/-! ### The whole text -/

/-- A token with the first byte that it covers and the byte after the last. -/
structure Placed where
  token : Token
  start : Nat
  stop : Nat
deriving DecidableEq

/-- A piece of the text that is no token, with its first byte. -/
structure Unrecognized where
  offset : Nat
  slice : List Char
deriving DecidableEq

/-- The tokens of a text that begins at the byte `offset`. -/
def scanFrom (offset : Nat) : List Char → Except Unrecognized (List Placed)
  | [] => .ok []
  | c :: more =>
    if isBlank c then scanFrom (offset + c.utf8Size) more
    else
      let piece := Lexeme.first c more
      let stop := offset + byteLength piece.slice
      match piece.token? with
      | none => .error ⟨offset, piece.slice⟩
      | some token => (scanFrom stop piece.rest).map (⟨token, offset, stop⟩ :: ·)
termination_by cs => cs.length
decreasing_by
  · simp
  · exact Lexeme.rest_first_length c more

/-- **The tokens of a text,** or its first piece that is no token. -/
def scan (cs : List Char) : Except Unrecognized (List Placed) :=
  scanFrom 0 cs

end MemberAccess
