import MemberAccess.Binary64.Digits
import MemberAccess.Text.Quoted
import MemberAccess.Text.Word

/-!
# String literals of code

A string literal stands between quotes, where a backslash begins an escape, or it is raw: an `r`,
some `#`, and the text between quotes as it is. A suffix may follow. Two literals may denote one
string, so a literal keeps the text that it was written with.

## Main definitions

* `StringLiteral`: a string with its literal.
* `escape?`: what the text after a backslash denotes.
* `IsSuffix`: what may stand behind the end of a literal.
* `StringLiteral.ofText?`: the string literal that a text is.
* `StringLiteral.ofValue`: the literal that is written for a string.
-/

namespace MemberAccess.Source

/-- **A string literal:** its text in code, and the string that it denotes. -/
structure StringLiteral where
  text : String
  value : String
deriving DecidableEq

/-! ### Escapes -/

/-- The value of a hexadecimal digit. -/
def hexDigit? (c : Char) : Option Nat :=
  if '0' ≤ c && c ≤ '9' then some (c.toNat - '0'.toNat)
  else if 'a' ≤ c && c ≤ 'f' then some (c.toNat - 'a'.toNat + 10)
  else if 'A' ≤ c && c ≤ 'F' then some (c.toNat - 'A'.toNat + 10)
  else none

/-- The number that hexadecimal digits denote. -/
def hexValue? (digits : List Char) : Option Nat :=
  (digits.mapM hexDigit?).map fun ds => ds.foldl (fun n d => 16 * n + d) 0

/-- The character of a code point, unless it is a surrogate or too large. -/
def character? (n : Nat) : Option Char :=
  if n.isValidChar then some (Char.ofNat n) else none

/-- The character of an escape by code point: one to six digits, which underscores may part. -/
def codePoint? (digits : List Char) : Option Char :=
  let proper := digits.filter (· ≠ '_')
  if proper = [] || 6 < proper.length || digits.head? = some '_' then none
  else (hexValue? proper).bind character?

/-- Whether `c` is part of the margin that an escaped line break drops. -/
def isMargin (c : Char) : Bool :=
  c = ' ' || c = '\t' || c = '\n' || c = '\r'

/-- **What the text after a backslash denotes,** and how many of its characters the escape takes.
An escaped line break denotes nothing, together with the margin of the next line. -/
def escape? : List Char → Option (List Char × Nat)
  | 'n' :: _ => some (['\n'], 1)
  | 'r' :: _ => some (['\r'], 1)
  | 't' :: _ => some (['\t'], 1)
  | '0' :: _ => some (['\x00'], 1)
  | '\\' :: _ => some (['\\'], 1)
  | '"' :: _ => some (['"'], 1)
  | '\x27' :: _ => some (['\x27'], 1)
  | 'x' :: a :: b :: _ =>
    match hexValue? [a, b] with
    | some n => if n < 128 then some ([Char.ofNat n], 3) else none
    | none => none
  | 'u' :: '\x7b' :: more =>
    let digits := more.takeWhile (· ≠ '\x7d')
    (codePoint? digits).map fun c => ([c], digits.length + 3)
  | c :: more =>
    if c = '\n' || c = '\r' then some ([], 1 + (more.takeWhile isMargin).length) else none
  | [] => none

/-! ### Reading -/

/-- The string that the text after an opening quote denotes, up to the closing quote. A line break
is a line feed, also when a carriage return stands in front of it. -/
def quotedValue? : List Char → Option (List Char)
  | [] => none
  | '"' :: _ => some []
  | '\\' :: more =>
    match escape? more with
    | some (denoted, taken) => (quotedValue? (more.drop taken)).map (denoted ++ ·)
    | none => none
  | '\r' :: more => if more.head? = some '\n' then quotedValue? more else none
  | c :: more => (quotedValue? more).map (c :: ·)
termination_by cs => cs.length
decreasing_by
  · exact Nat.lt_succ_of_le (List.length_drop ▸ Nat.sub_le _ _)
  · exact Nat.lt_succ_self _
  · exact Nat.lt_succ_self _

/-- How many characters the text after an opening quote has, up to the closing quote and with
it. -/
def quotedLength? : List Char → Option Nat
  | '"' :: _ => some 1
  | '\\' :: _ :: more => (quotedLength? more).map (· + 2)
  | _ :: more => (quotedLength? more).map (· + 1)
  | [] => none

/-- How many characters a raw text has before the quote that `hashes` hash signs follow. -/
def rawLength? (hashes : Nat) : List Char → Option Nat
  | [] => none
  | '"' :: more =>
    if more.take hashes = List.replicate hashes '#' then some 0
    else (rawLength? hashes more).map (· + 1)
  | _ :: more => (rawLength? hashes more).map (· + 1)

/-- Splits the hash signs from the front of a text. -/
def splitHashes (cs : List Char) : Nat × List Char :=
  ((cs.takeWhile (· = '#')).length, cs.dropWhile (· = '#'))

/-- **What may stand behind the end of a literal:** a word, which is its suffix, or nothing. -/
def IsSuffix (cs : List Char) : Prop :=
  cs = [] ∨ Text.IsWord cs

instance (cs : List Char) : Decidable (IsSuffix cs) :=
  inferInstanceAs (Decidable (_ ∨ _))

/-- The text that the rest of a raw literal denotes, after its `r`. -/
def rawValue? (cs : List Char) : Option (List Char) :=
  match splitHashes cs with
  | (hashes, '"' :: more) =>
    (rawLength? hashes more).bind fun n =>
      if IsSuffix (more.drop (n + 1 + hashes)) then some (more.take n) else none
  | _ => none

namespace StringLiteral

/-- **The string literal that a text is.** A suffix denotes nothing. -/
def ofText? (text : String) : Option StringLiteral :=
  let value := match text.toList with
    | '"' :: more =>
      (quotedLength? more).bind fun n => if IsSuffix (more.drop n) then quotedValue? more else none
    | 'r' :: more => rawValue? more
    | _ => none
  value.map fun cs => ⟨text, String.ofList cs⟩

/-! ### Writing -/

/-- The characters of a written literal. A NUL in front of an octal digit is written in full, since
its short form would seem to go on. -/
def writtenChars : List Char → List Char
  | [] => []
  | c :: more =>
    (if c.toNat = 0 && more.head?.any (fun d => '0' ≤ d && d ≤ '7') then "\\x00".toList
      else Text.escape c) ++ writtenChars more

/-- **The literal that is written for a string.** -/
def ofValue (s : String) : StringLiteral :=
  ⟨String.ofList ('"' :: writtenChars s.toList ++ ['"']), s⟩

end StringLiteral

end MemberAccess.Source
