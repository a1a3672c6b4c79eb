import MemberAccess.Proofs.Lambda.Quotation
import MemberAccess.Source.StringLiteral

/-!
# Literals that are written are read

The literal that is written for a string is read as that literal again. Each character is read back
from what is written for it, whatever follows: some characters have a short escape, and those that
are not seen on their own are written by the digits of their code point. Nothing of this closes the
literal, so the quote that is written last is the one that does.

## Main results

* `hexValue?_hexadecimal`: the digits of a number denote it.
* `escape_cases`: what is written for a character.
* `quotedValue?_escape`: a character is read from what is written for it.
* `quotedLength?_escape`: and that does not close the literal.
* `StringLiteral.ofText?_ofValue`: the literal of a string is read as that.
-/

namespace MemberAccess.Source

open Text

/-! ### Digits of code points -/

/-- A digit has the value that it is the digit of. -/
theorem hexDigit?_digitChar : ∀ d < 16, hexDigit? d.digitChar = some d := by
  decide

/-- One digit more is worth sixteen times the digits before it. -/
theorem hexValue?_concat {digits : List Char} {c : Char} {n d : Nat}
    (hdigits : hexValue? digits = some n) (hc : hexDigit? c = some d) :
    hexValue? (digits ++ [c]) = some (16 * n + d) := by
  rw [hexValue?, Option.map_eq_some_iff] at hdigits ⊢
  obtain ⟨ds, hds, rfl⟩ := hdigits
  refine ⟨ds ++ [d], ?_, by rw [List.foldl_append]; rfl⟩
  rw [List.mapM_append, hds, List.mapM_cons, hc]
  rfl

/-- **The digits of a number denote it.** -/
theorem hexValue?_hexadecimal (n : Nat) : hexValue? (hexadecimal n) = some n := by
  induction n using Nat.strongRecOn with
  | ind n ih =>
      rw [hexadecimal, Nat.toDigits_eq_if (by decide)]
      split
      · rename_i hsmall
        rw [hexValue?, List.mapM_cons, hexDigit?_digitChar n hsmall]
        exact congrArg some (Nat.zero_add n)
      · rename_i hlarge
        have hhigh := ih (n / 16) (by omega)
        have hlow := hexDigit?_digitChar (n % 16) (by omega)
        rw [hexadecimal] at hhigh
        rw [hexValue?_concat hhigh hlow]
        exact congrArg some (Nat.div_add_mod n 16)

/-- The digits of a code point denote its character. -/
theorem codePoint?_hexadecimal (c : Char) : codePoint? (hexadecimal c.toNat) = some c := by
  have hplain : ∀ d < 16, d.digitChar ≠ '_' := by decide
  have hproper : (hexadecimal c.toNat).filter (· ≠ '_') = hexadecimal c.toNat := by
    refine List.filter_eq_self.2 fun e he => ?_
    obtain ⟨d, hd, rfl⟩ := exists_digit_of_mem_hexadecimal he
    exact decide_eq_true (hplain d hd)
  have hne : hexadecimal c.toNat ≠ [] := Nat.toDigits_ne_nil
  have hlength : (hexadecimal c.toNat).length ≤ 6 := by
    have hsmall : c.toNat < 16 ^ 6 := by
      have hvalid : c.toNat < 0xd800 ∨ (0xdfff < c.toNat ∧ c.toNat < 0x110000) := c.valid
      omega
    exact (Nat.length_toDigits_le_iff (by decide) (by decide)).2 hsmall
  have hhead : (hexadecimal c.toNat).head? ≠ some '_' := by
    intro hhead
    obtain ⟨d, hd, heq⟩ := exists_digit_of_mem_hexadecimal (List.mem_of_head? hhead)
    exact hplain d hd heq.symm
  have hvalid : c.toNat.isValidChar := c.valid
  rw [codePoint?, hproper]
  simp only [hne, hhead, Nat.not_lt.2 hlength, decide_false, Bool.or_false, Bool.false_eq_true,
    if_false]
  rw [hexValue?_hexadecimal, Option.bind_some, character?, if_pos hvalid, Char.ofNat_toNat]

/-! ### Characters -/

/-- An escape denotes characters, whatever follows it. -/
theorem quotedValue?_backslash {more denoted : List Char} {taken : Nat}
    (h : escape? more = some (denoted, taken)) :
    quotedValue? ('\\' :: more) = (quotedValue? (more.drop taken)).map (denoted ++ ·) := by
  rw [quotedValue?, h]

/-- The escape of a code point is the character. -/
theorem escape?_hexadecimal (c : Char) (rest : List Char) :
    escape? ('u' :: '\x7b' :: (hexadecimal c.toNat ++ '\x7d' :: rest)) =
      some ([c], (hexadecimal c.toNat).length + 3) := by
  have hplain : ∀ d < 16, d.digitChar ≠ '\x7d' := by decide
  have hdigits : (hexadecimal c.toNat ++ '\x7d' :: rest).takeWhile (· ≠ '\x7d') =
      hexadecimal c.toNat := by
    rw [List.takeWhile_append_of_pos, List.takeWhile_cons_of_neg, List.append_nil]
    · simp
    · intro e he
      obtain ⟨d, hd, rfl⟩ := exists_digit_of_mem_hexadecimal he
      exact decide_eq_true (hplain d hd)
  rw [escape?, hdigits, codePoint?_hexadecimal]
  rfl

/-- **What is written for a character** is a short escape of it, the escape of its code point, or
the character itself, which then has no meaning of its own in a literal. -/
theorem escape_cases (c : Char) :
    (∃ e, escape c = ['\\', e] ∧ ∀ rest, escape? (e :: rest) = some ([c], 1)) ∨
      escape c = '\\' :: 'u' :: '\x7b' :: (hexadecimal c.toNat ++ ['\x7d']) ∨
        escape c = [c] ∧ c ≠ '"' ∧ c ≠ '\\' ∧ c ≠ '\r' := by
  by_cases hshort : c ∈ ['"', '\\', '\n', '\r', '\t', '\x00']
  · left
    simp only [List.mem_cons, List.not_mem_nil, or_false] at hshort
    rcases hshort with rfl | rfl | rfl | rfl | rfl | rfl <;> exact ⟨_, rfl, fun _ => rfl⟩
  · right
    by_cases hcoded : IsCoded c
    · exact .inl (escape_of_isCoded hcoded)
    · have hplain := escape_of_not_isCoded hshort hcoded
      simp only [List.mem_cons, not_or] at hshort
      exact .inr ⟨hplain, hshort.1, hshort.2.1, hshort.2.2.2.1⟩

/-- **A character is read** from what is written for it, whatever follows. -/
theorem quotedValue?_escape (c : Char) (rest : List Char) :
    quotedValue? (escape c ++ rest) = (quotedValue? rest).map (c :: ·) := by
  rcases escape_cases c with ⟨e, htext, hread⟩ | htext | ⟨htext, hquote, hslash, hreturn⟩
  · rw [htext]
    exact quotedValue?_backslash (hread rest)
  · have hescape : escape c ++ rest =
        '\\' :: 'u' :: '\x7b' :: (hexadecimal c.toNat ++ '\x7d' :: rest) := by simp [htext]
    rw [hescape, quotedValue?_backslash (escape?_hexadecimal c rest)]
    simp
  · rw [htext, List.singleton_append, quotedValue?.eq_def]
    split <;> simp_all

/-! ### The end of a literal -/

/-- Characters that neither close a literal nor begin an escape count one by one. -/
theorem quotedLength?_append {cs : List Char} (h : ∀ c ∈ cs, c ≠ '"' ∧ c ≠ '\\')
    (rest : List Char) : quotedLength? (cs ++ rest) = (quotedLength? rest).map (· + cs.length) := by
  induction cs with
  | nil => simp
  | cons c cs ih =>
      obtain ⟨⟨hquote, hslash⟩, hcs⟩ := List.forall_mem_cons.1 h
      have hplain : quotedLength? (c :: (cs ++ rest)) =
          (quotedLength? (cs ++ rest)).map (· + 1) := by
        rw [quotedLength?.eq_def]
        split <;> simp_all
      rw [List.cons_append, hplain, ih hcs, Option.map_map]
      exact congrArg (Option.map · _) (funext fun n => Nat.add_assoc n _ 1)

/-- What is written for a character does not close a literal. -/
theorem quotedLength?_escape (c : Char) (rest : List Char) :
    quotedLength? (escape c ++ rest) = (quotedLength? rest).map (· + (escape c).length) := by
  rcases escape_cases c with ⟨e, htext, -⟩ | htext | ⟨htext, hquote, hslash, -⟩
  · rw [htext]
    rfl
  · have hplain : ∀ d ∈ '\x7b' :: (hexadecimal c.toNat ++ ['\x7d']), d ≠ '"' ∧ d ≠ '\\' := by
      simp only [List.mem_cons, List.mem_append, List.not_mem_nil, or_false]
      rintro d (rfl | hd | rfl)
      · decide
      · exact ne_of_mem_hexadecimal hd
      · decide
    rw [htext, List.cons_append, List.cons_append, quotedLength?, quotedLength?_append hplain,
      Option.map_map]
    rfl
  · rw [htext]
    exact quotedLength?_append (List.forall_mem_singleton.2 ⟨hquote, hslash⟩) rest

namespace StringLiteral

/-! ### Strings -/

/-- A literal keeps the text that it is read from. -/
theorem text_of_ofText? {text : String} {l : StringLiteral} (h : ofText? text = some l) :
    l.text = text := by
  rw [ofText?, Option.map_eq_some_iff] at h
  obtain ⟨_, -, rfl⟩ := h
  rfl

/-- What is written in front of the rest of a literal: the escape of a character, or that of NUL in
full. -/
theorem writtenChars_cons (c : Char) (more : List Char) :
    (c = '\x00' ∧ writtenChars (c :: more) = '\\' :: 'x' :: '0' :: '0' :: writtenChars more) ∨
      writtenChars (c :: more) = escape c ++ writtenChars more := by
  rw [writtenChars]
  split
  · rename_i hzero
    rw [Bool.and_eq_true, decide_eq_true_eq] at hzero
    exact .inl ⟨Char.toNat_inj.1 hzero.1, rfl⟩
  · exact .inr rfl

/-- The characters of a written literal are read up to the closing quote. -/
theorem quotedValue?_writtenChars (cs : List Char) :
    quotedValue? (writtenChars cs ++ ['"']) = some cs := by
  induction cs with
  | nil => rw [writtenChars, List.nil_append, quotedValue?]
  | cons c more ih =>
      rcases writtenChars_cons c more with ⟨rfl, htext⟩ | htext
      · have hfull : escape? ('x' :: '0' :: '0' :: (writtenChars more ++ ['"'])) =
            some (['\x00'], 3) := rfl
        rw [htext]
        exact (quotedValue?_backslash hfull).trans (congrArg _ ih)
      · rw [htext, List.append_assoc, quotedValue?_escape, ih]
        rfl

/-- The quote behind the characters of a written literal closes it. -/
theorem quotedLength?_writtenChars (cs : List Char) :
    quotedLength? (writtenChars cs ++ ['"']) = some (writtenChars cs ++ ['"']).length := by
  induction cs with
  | nil => rfl
  | cons c more ih =>
      rcases writtenChars_cons c more with ⟨-, htext⟩ | htext
      · have hdigits : ∀ d ∈ ['0', '0'], d ≠ '"' ∧ d ≠ '\\' := by simp
        have hzero : quotedLength? ('0' :: '0' :: (writtenChars more ++ ['"'])) =
            (quotedLength? (writtenChars more ++ ['"'])).map (· + 2) :=
          quotedLength?_append hdigits _
        rw [htext, List.cons_append, List.cons_append, quotedLength?, List.cons_append,
          List.cons_append, hzero, ih]
        rfl
      · rw [htext, List.append_assoc, quotedLength?_escape, ih, Option.map_some,
          Nat.add_comm]
        exact congrArg some List.length_append.symm

/-- **The literal of a string is read as that.** -/
theorem ofText?_ofValue (s : String) : ofText? (ofValue s).text = some (ofValue s) := by
  have hchars : (ofValue s).text.toList = '"' :: (writtenChars s.toList ++ ['"']) :=
    String.toList_ofList
  have hsuffix : IsSuffix ((writtenChars s.toList ++ ['"']).drop
      (writtenChars s.toList ++ ['"']).length) := .inl (List.drop_length ..)
  rw [ofText?, hchars]
  simp only [quotedLength?_writtenChars, Option.bind_some, if_pos hsuffix,
    quotedValue?_writtenChars, Option.map_some, String.ofList_toList]
  rfl

end StringLiteral

end MemberAccess.Source
