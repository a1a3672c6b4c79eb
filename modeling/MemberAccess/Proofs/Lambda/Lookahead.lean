import MemberAccess.Proofs.Path.Spelling

/-!
# What a token sees of the text behind it

Tokens are as long as they can be, so whether one ends at a place depends on the text behind it: a
number looks for a point and a digit, a fraction for an exponent, the name `r` for `#` and a name, a
mark for another mark. No token looks past a blank. So a token stays what it is when the text behind
it ends early, or when it becomes another text from a blank on.

## Main definitions

* `Mimics`: a text that goes on like another, until it ends or a blank comes.

## Main results

* `Lexeme.first_of_mimics`: the first token of a text is that of each text that begins with its
  characters and goes on like the text behind it.
-/

namespace MemberAccess

open Text

/-- **A text that goes on like another,** until it ends or a blank comes. -/
inductive Mimics : List Char → List Char → Prop
  | apart {rest tail : List Char} (h : ∀ c, tail.head? = some c → isBlank c = true) :
      Mimics rest tail
  | along (c : Char) {rest tail : List Char} (h : Mimics rest tail) :
      Mimics (c :: rest) (c :: tail)

namespace Mimics

variable {rest tail : List Char}

/-- The end of a text goes on like every text. -/
theorem nil (rest : List Char) : Mimics rest [] :=
  .apart fun _ h => by cases h

/-- A text goes on like itself. -/
theorem refl : (rest : List Char) → Mimics rest rest
  | [] => nil []
  | c :: rest => .along c (refl rest)

/-- Texts that begin alike go on alike if what follows does. -/
theorem append (front : List Char) (h : Mimics rest tail) :
    Mimics (front ++ rest) (front ++ tail) := by
  induction front with
  | nil => exact h
  | cons c front ih => exact .along c ih

/-- A character that is no blank stands in both texts, and they go on from there. -/
theorem exists_cons {c : Char} (h : Mimics rest (c :: tail)) (hc : isBlank c = false) :
    ∃ rest', rest = c :: rest' ∧ Mimics rest' tail := by
  cases h with
  | apart hblank => cases hc.symm.trans (hblank c rfl)
  | along c h => exact ⟨_, rfl, h⟩

/-- So do characters without a blank among them. -/
theorem exists_append {front : List Char} (h : Mimics rest (front ++ tail))
    (hfront : ∀ c ∈ front, isBlank c = false) :
    ∃ rest', rest = front ++ rest' ∧ Mimics rest' tail := by
  induction front generalizing rest with
  | nil => exact ⟨rest, rfl, h⟩
  | cons c front ih =>
      obtain ⟨hc, hfront⟩ := List.forall_mem_cons.1 hfront
      obtain ⟨behind, rfl, hbehind⟩ := h.exists_cons hc
      obtain ⟨rest', rfl, hrest⟩ := ih hbehind hfront
      exact ⟨rest', rfl, hrest⟩

/-- A class of characters without blanks ends where it ends in the other text. -/
theorem ends {p : Char → Bool} (hp : ∀ c, isBlank c = true → p c = false) (h : Mimics rest tail)
    (hrest : ∀ c, rest.head? = some c → p c = false) : ∀ c, tail.head? = some c → p c = false := by
  intro c hc
  cases h with
  | apart hblank => exact hp c (hblank c hc)
  | along d _ => exact hrest c hc

/-- So does a run of the class. -/
theorem span {p : Char → Bool} (hp : ∀ c, isBlank c = true → p c = false) {cs : List Char}
    (h : Mimics (cs.dropWhile p) tail) :
    (cs.takeWhile p ++ tail).takeWhile p = cs.takeWhile p ∧
      (cs.takeWhile p ++ tail).dropWhile p = tail := by
  refine takeWhile_append_exact (List.all_eq_true.1 List.all_takeWhile) (h.ends hp fun c hc => ?_)
  have hhead := List.head?_dropWhile_not p cs
  rwa [hc] at hhead

end Mimics

/-! ### Blanks -/

/-- A blank is no digit. -/
theorem isDigit_of_isBlank {c : Char} (h : isBlank c = true) : Digits.isDigit c = false := by
  refine Bool.eq_false_iff.2 fun hdigit => ?_
  cases h.symm.trans (isBlank_eq_false (.inr hdigit))

namespace Lexeme

/-! ### Words -/

/-- A word and a raw word are told apart by the characters behind the first. -/
theorem first_of_startsIdentifier {c : Char} (hc : startsIdentifier c = true) {more : List Char}
    (hraw : ∀ d rest, more = '#' :: d :: rest → ¬(c = 'r' ∧ startsIdentifier d = true)) :
    first c more = ofWord c more := by
  rw [first.eq_def, if_pos hc]
  split
  · rename_i d rest
    exact if_neg (hraw d rest rfl)
  · rfl

/-- A letter behind the mark of raw names makes a raw word. -/
theorem first_raw {d : Char} (hd : startsIdentifier d = true) (rest : List Char) :
    first 'r' ('#' :: d :: rest) = ofRawWord d rest := by
  rw [first.eq_def, if_pos (by decide)]
  exact if_pos ⟨rfl, hd⟩

/-- A word stays what it is in front of a text that goes on alike. -/
theorem ofWord_of_mimics {c : Char} {more slice rest tail : List Char} {t : Token}
    (h : ofWord c more = ⟨some t, c :: slice, rest⟩) (hmimics : Mimics rest tail) :
    ofWord c (slice ++ tail) = ⟨some t, c :: slice, tail⟩ := by
  simp only [ofWord, mk.injEq, Option.some.injEq, List.cons.injEq, true_and] at h
  obtain ⟨rfl, rfl, rfl⟩ := h
  obtain ⟨htake, hdrop⟩ := hmimics.span fun c hc => (continuesIdentifier_of_isBlank hc).1
  rw [ofWord, htake, hdrop]

/-- So does a raw word. -/
theorem ofRawWord_of_mimics {c : Char} {more slice rest tail : List Char} {t : Token}
    (h : ofRawWord c more = ⟨some t, 'r' :: '#' :: c :: slice, rest⟩) (hmimics : Mimics rest tail) :
    ofRawWord c (slice ++ tail) = ⟨some t, 'r' :: '#' :: c :: slice, tail⟩ := by
  simp only [ofRawWord, mk.injEq, Option.some.injEq, List.cons.injEq, true_and] at h
  obtain ⟨rfl, rfl, rfl⟩ := h
  obtain ⟨htake, hdrop⟩ := hmimics.span fun c hc => (continuesIdentifier_of_isBlank hc).1
  rw [ofRawWord, htake, hdrop]

/-- A word does not become a raw one. -/
theorem first_word_of_mimics {c : Char} (hc : startsIdentifier c = true)
    {more slice rest tail : List Char} {t : Token}
    (hraw : ∀ d rest, more = '#' :: d :: rest → ¬(c = 'r' ∧ startsIdentifier d = true))
    (h : ofWord c more = ⟨some t, c :: slice, rest⟩) (hmimics : Mimics rest tail) :
    first c (slice ++ tail) = ⟨some t, c :: slice, tail⟩ := by
  rw [first_of_startsIdentifier hc, ofWord_of_mimics h hmimics]
  rintro d more' heq ⟨hr, hd⟩
  simp only [ofWord, mk.injEq, Option.some.injEq, List.cons.injEq, true_and] at h
  obtain ⟨-, rfl, rfl⟩ := h
  cases hname : more.takeWhile continuesIdentifier with
  | cons e name =>
      have he : continuesIdentifier e = true := by
        refine List.all_eq_true.1 (List.all_takeWhile (p := continuesIdentifier) (l := more)) e ?_
        exact hname ▸ List.mem_cons_self
      rw [hname, List.cons_append] at heq
      obtain ⟨rfl, -⟩ := List.cons.inj heq
      exact absurd he (by decide)
  | nil =>
      -- The mark `#` and the name behind it stood behind the word already.
      rw [hname, List.nil_append] at heq
      subst heq
      obtain ⟨rest, hrest, hmimics⟩ := hmimics.exists_cons (by decide)
      obtain ⟨rest, rfl, -⟩ := hmimics.exists_cons (isBlank_eq_false (.inl hd))
      have hmore := List.takeWhile_append_dropWhile (p := continuesIdentifier) (l := more)
      rw [hname, List.nil_append, hrest] at hmore
      exact hraw d rest hmore.symm ⟨hr, hd⟩

/-! ### Numbers -/

/-- **A text with an exponent in front:** a mark, perhaps a sign, and a digit. -/
def HasExponent (cs : List Char) : Prop :=
  ∃ e sign d more, cs = e :: (sign ++ d :: more) ∧ (e = 'e' ∨ e = 'E') ∧
    sign ∈ [[], ['+'], ['-']] ∧ Digits.isDigit d = true

/-- An exponent is its mark, a sign or none, and digits. -/
theorem splitExponent_of_hasExponent {e d : Char} {sign more : List Char}
    (he : e = 'e' ∨ e = 'E') (hsign : sign ∈ [[], ['+'], ['-']]) (hd : Digits.isDigit d = true) :
    splitExponent (e :: (sign ++ d :: more)) =
      (e :: sign, d :: more.takeWhile Digits.isDigit, more.dropWhile Digits.isDigit) := by
  have hnosign : ¬(d = '+' ∨ d = '-') := by
    rintro (rfl | rfl)
    · exact absurd hd (by decide)
    · exact absurd hd (by decide)
  simp only [List.mem_cons, List.not_mem_nil, or_false] at hsign
  rcases hsign with rfl | rfl | rfl
  all_goals simp [splitExponent, hnosign, he, hd]

/-- A run of a class that is not empty begins with one of the class. -/
theorem exists_cons_of_takeWhile {p : Char → Bool} {cs : List Char} (h : cs.takeWhile p ≠ []) :
    ∃ d more, cs = d :: more ∧ p d = true := by
  cases cs with
  | nil => exact absurd rfl h
  | cons d more =>
      by_cases hd : p d = true
      · exact ⟨d, more, rfl, hd⟩
      · exact absurd (List.takeWhile_cons_of_neg hd) h

/-- Without a digit behind the mark and the sign, there is no exponent. -/
theorem splitExponent_of_not_hasExponent {cs : List Char} (h : ¬HasExponent cs) :
    splitExponent cs = ([], [], cs) := by
  cases cs with
  | nil => rfl
  | cons e more =>
      rw [splitExponent.eq_def]
      refine if_neg ?_
      rintro ⟨he, hdigits⟩
      cases more with
      | nil => exact hdigits rfl
      | cons s rest =>
          by_cases hs : s = '+' ∨ s = '-'
          · simp only [if_pos hs, List.length_singleton, List.drop_succ_cons,
              List.drop_zero] at hdigits
            obtain ⟨d, more, rfl, hd⟩ := exists_cons_of_takeWhile hdigits
            refine h ⟨e, [s], d, more, rfl, he, ?_, hd⟩
            rcases hs with rfl | rfl <;> decide
          · simp only [if_neg hs, List.length_nil, List.drop_zero] at hdigits
            obtain ⟨d, more, hrest, hd⟩ := exists_cons_of_takeWhile hdigits
            exact h ⟨e, [], d, more, by rw [hrest, List.nil_append], he, List.mem_cons_self, hd⟩

/-- Where a text that goes on alike has an exponent, the text has one. -/
theorem HasExponent.of_mimics {rest tail : List Char} (hmimics : Mimics rest tail)
    (h : HasExponent tail) : HasExponent rest := by
  obtain ⟨e, sign, d, more, rfl, he, hsign, hd⟩ := h
  have hmarks : ∀ c ∈ e :: (sign ++ [d]), isBlank c = false := by
    have hdigit := isBlank_eq_false (.inr hd)
    simp only [List.mem_cons, List.not_mem_nil, or_false] at hsign
    rcases he with rfl | rfl <;> rcases hsign with rfl | rfl | rfl <;> simp [hdigit] <;> decide
  have hsplit : e :: (sign ++ d :: more) = (e :: (sign ++ [d])) ++ more := by simp
  obtain ⟨more', rfl, -⟩ := (hsplit ▸ hmimics).exists_append hmarks
  exact ⟨e, sign, d, more', by simp, he, hsign, hd⟩

/-- An exponent stays what it is in front of a text that goes on alike. -/
theorem splitExponent_of_mimics {cs marks digits rest tail : List Char}
    (h : splitExponent cs = (marks, digits, rest)) (hmimics : Mimics rest tail) :
    splitExponent (marks ++ (digits ++ tail)) = (marks, digits, tail) := by
  by_cases hexponent : HasExponent cs
  · obtain ⟨e, sign, d, more, rfl, he, hsign, hd⟩ := hexponent
    rw [splitExponent_of_hasExponent he hsign hd] at h
    cases h
    obtain ⟨htake, hdrop⟩ := hmimics.span fun c => isDigit_of_isBlank
    rw [List.cons_append, List.cons_append, splitExponent_of_hasExponent he hsign hd, htake, hdrop]
  · rw [splitExponent_of_not_hasExponent hexponent] at h
    cases h
    exact splitExponent_of_not_hasExponent fun htail => hexponent (htail.of_mimics hmimics)

/-- An exponent, or what is left of a text without one, begins with no digit if the text does
not. -/
theorem head_splitExponent {cs marks digits rest tail : List Char}
    (h : splitExponent cs = (marks, digits, rest)) (hmimics : Mimics rest tail)
    (hcs : ∀ c, cs.head? = some c → Digits.isDigit c = false) :
    ∀ c, (marks ++ (digits ++ tail)).head? = some c → Digits.isDigit c = false := by
  by_cases hexponent : HasExponent cs
  · obtain ⟨e, sign, d, more, rfl, he, hsign, hd⟩ := hexponent
    rw [splitExponent_of_hasExponent he hsign hd] at h
    cases h
    exact fun c hc => hcs c hc
  · rw [splitExponent_of_not_hasExponent hexponent] at h
    cases h
    exact hmimics.ends (fun c => isDigit_of_isBlank) hcs

/-- So does a number with a point. -/
theorem ofFraction_of_mimics {whole more slice rest tail : List Char} {t : Token}
    (h : ofFraction whole more = ⟨some t, whole ++ '.' :: slice, rest⟩)
    (hmimics : Mimics rest tail) :
    ofFraction whole (slice ++ tail) = ⟨some t, whole ++ '.' :: slice, tail⟩ := by
  obtain ⟨marks, digits, behind, hsplit⟩ :
      ∃ marks digits behind,
        splitExponent (more.dropWhile Digits.isDigit) = (marks, digits, behind) :=
    ⟨_, _, _, rfl⟩
  simp only [ofFraction, hsplit, mk.injEq, Option.some.injEq, List.append_assoc,
    List.append_cancel_left_eq, List.cons_append, List.cons.injEq, true_and] at h
  obtain ⟨rfl, rfl, rfl⟩ := h
  obtain ⟨htake, hdrop⟩ := takeWhile_append_exact
    (List.all_eq_true.1 (List.all_takeWhile (p := Digits.isDigit) (l := more)))
    (head_splitExponent hsplit hmimics (isDigit_head_dropWhile more))
  have hsplit' := splitExponent_of_mimics hsplit hmimics
  rw [List.append_assoc, List.append_assoc]
  simp only [ofFraction, htake, hdrop, hsplit', List.append_assoc, List.cons_append]

/-- So does any number. -/
theorem ofNumber_of_mimics {c : Char} {more slice rest tail : List Char} {t : Token}
    (h : ofNumber c more = ⟨some t, c :: slice, rest⟩) (hmimics : Mimics rest tail) :
    ofNumber c (slice ++ tail) = ⟨some t, c :: slice, tail⟩ := by
  obtain ⟨digits, behind, rfl, hdigits, hends | ⟨d, more, rfl, hd⟩⟩ := exists_digits more
  · rw [ofNumber_eq_ofDigits hdigits hends] at h
    simp only [ofDigits, mk.injEq, List.cons.injEq, true_and] at h
    obtain ⟨ht, rfl, rfl⟩ := h
    have hpoint : ∀ d rest, tail = '.' :: d :: rest → Digits.isDigit d = false := by
      rintro d rest rfl
      refine Bool.eq_false_iff.2 fun hd => ?_
      obtain ⟨behind, rfl, hnext⟩ := hmimics.exists_cons (by decide)
      obtain ⟨more, rfl, -⟩ := hnext.exists_cons (isBlank_eq_false (.inr hd))
      exact absurd hd (Bool.eq_false_iff.1 (hends.2 d more rfl))
    rw [ofNumber_eq_ofDigits hdigits
      ⟨hmimics.ends (fun c => isDigit_of_isBlank) hends.1, hpoint⟩, ofDigits, ht]
  · rw [ofNumber_eq_ofFraction hdigits hd] at h
    have hslice : ∃ slice', slice = digits ++ '.' :: d :: slice' := by
      have hslice := congrArg Lexeme.slice h
      simp only [ofFraction, List.takeWhile_cons, hd, if_true, List.cons_append, List.append_assoc,
        List.cons.injEq, true_and] at hslice
      exact ⟨_, hslice.symm⟩
    obtain ⟨slice, rfl⟩ := hslice
    rw [List.append_assoc, List.cons_append, List.cons_append, ofNumber_eq_ofFraction hdigits hd]
    have hfraction : ofFraction (c :: digits) (d :: more) =
        ⟨some t, c :: digits ++ '.' :: (d :: slice), rest⟩ := h
    have hlonger := ofFraction_of_mimics hfraction hmimics
    exact hlonger

/-! ### Strings -/

/-- Units of a string are split off before the quote that closes it, whatever stands behind. -/
theorem split_of_closed {more rest : List Char} {pieces : List StringPiece}
    (h : StringPiece.split more = (pieces, '"' :: rest)) (tail : List Char) :
    StringPiece.split (pieces.flatMap StringPiece.text ++ '"' :: tail) = (pieces, '"' :: tail) := by
  have hunits : ∀ p ∈ (StringPiece.split more).1, p.IsInner := StringPiece.isInner_of_mem_split
  rw [h] at hunits
  exact StringPiece.split_units hunits tail

/-- A closed string stays what it is whatever follows. -/
theorem ofString_of_closed {more slice rest : List Char} {t : Token}
    (h : ofString more = ⟨some t, '"' :: slice, rest⟩) (tail : List Char) :
    ofString (slice ++ tail) = ⟨some t, '"' :: slice, tail⟩ := by
  obtain ⟨pieces, behind, hsplit⟩ : ∃ pieces behind, StringPiece.split more = (pieces, behind) :=
    ⟨_, _, rfl⟩
  simp only [ofString, hsplit] at h
  split at h
  · rename_i rest'
    simp only [mk.injEq, List.cons_append, List.cons.injEq, true_and] at h
    obtain ⟨ht, rfl, rfl⟩ := h
    have hclosed := split_of_closed hsplit tail
    rw [List.append_assoc, List.singleton_append, ofString, hclosed]
    simp only [ht, List.cons_append]
  · cases h

/-! ### Symbols -/

/-- A symbol stays what it is in front of a text that goes on alike. -/
theorem ofSymbol_of_mimics {c : Char} {more slice rest tail : List Char} {t : Token}
    (h : ofSymbol c more = ⟨some t, c :: slice, rest⟩) (hmimics : Mimics rest tail) :
    ofSymbol c (slice ++ tail) = ⟨some t, c :: slice, tail⟩ := by
  have hsingle : (Symbol.ofChar? c).map Token.symbol = some t →
      (∀ d, rest.head? = some d → Symbol.ofPair? c d = none) →
      ofSymbol c tail = ⟨some t, [c], tail⟩ := by
    intro ht hrest
    cases tail with
    | nil => rw [ofSymbol, ht]
    | cons d tail =>
        have hpair : Symbol.ofPair? c d = none := by
          cases hmimics with
          | apart hblank => exact Symbol.ofPair?_of_follows (.inl (hblank d rfl))
          | along _ _ => exact hrest d rfl
        rw [ofSymbol]
        simp only [hpair, ht]
  cases more with
  | nil =>
      simp only [ofSymbol, mk.injEq, List.cons.injEq, true_and] at h
      obtain ⟨ht, rfl, rfl⟩ := h
      exact hsingle ht fun d hd => by cases hd
  | cons d more =>
      cases hpair : Symbol.ofPair? c d with
      | some s =>
          simp only [ofSymbol, hpair, mk.injEq, Option.some.injEq, List.cons.injEq, true_and] at h
          obtain ⟨rfl, rfl, rfl⟩ := h
          rw [List.singleton_append, ofSymbol]
          simp only [hpair]
      | none =>
          simp only [ofSymbol, hpair, mk.injEq, List.cons.injEq, true_and] at h
          obtain ⟨ht, rfl, rfl⟩ := h
          exact hsingle ht fun e he => Option.some.inj he ▸ hpair

/-! ### Any token -/

/-- **The first token of a text does not see past a blank.** It is that of each text that begins
with its characters and goes on like the text behind it, until that ends or a blank comes. -/
theorem first_of_mimics {c : Char} {more slice rest tail : List Char} {t : Token}
    (h : first c more = ⟨some t, c :: slice, rest⟩) (hmimics : Mimics rest tail) :
    first c (slice ++ tail) = ⟨some t, c :: slice, tail⟩ := by
  by_cases hc : startsIdentifier c = true
  · by_cases hraw : ∃ d rest, more = '#' :: d :: rest ∧ c = 'r' ∧ startsIdentifier d = true
    · obtain ⟨d, more, rfl, rfl, hd⟩ := hraw
      rw [first_raw hd] at h
      obtain ⟨slice, rfl⟩ : ∃ slice', slice = '#' :: d :: slice' := by
        have hslice := congrArg Lexeme.slice h
        simp only [ofRawWord, List.cons.injEq, true_and] at hslice
        exact ⟨_, hslice.symm⟩
      rw [List.cons_append, List.cons_append, first_raw hd, ofRawWord_of_mimics h hmimics]
    · have hnot : ∀ d rest, more = '#' :: d :: rest → ¬(c = 'r' ∧ startsIdentifier d = true) :=
        fun d rest heq hr => hraw ⟨d, rest, heq, hr⟩
      rw [first_of_startsIdentifier hc hnot] at h
      exact first_word_of_mimics hc hnot h hmimics
  by_cases hdigit : Digits.isDigit c = true
  · rw [first_of_isDigit hdigit] at h ⊢
    exact ofNumber_of_mimics h hmimics
  by_cases hquote : c = '"'
  · subst hquote
    exact ofString_of_closed h tail
  · have hsymbol : ∀ more, first c more = ofSymbol c more := by
      intro more
      rw [first.eq_def, if_neg hc, if_neg hdigit, if_neg hquote]
    rw [hsymbol] at h ⊢
    exact ofSymbol_of_mimics h hmimics

end Lexeme

end MemberAccess
