import MemberAccess.Proofs.Lambda.Lexing
import MemberAccess.Source.Scan

/-!
# Words in code

Code that is made of words, with colons between them, is split into just these. A word ends where a
character follows that is none of a word, and since literals are looked for first, there must be no
quote behind it: `b` in front of one is the front of a literal. Marks and words nest no groups, so
they are tokens as they stand.

## Main definitions

* `IsWordText`: the texts of words, bare or raw.
* `EndsWordText`: the texts that end a word in front of them.
* `absoluteText`, `absoluteTokens`: an absolute path through segments.

## Main results

* `pieces?_word`: a word is split off.
* `tokens?_absoluteText`: the tokens of an absolute path.
* `tokens?_hyphen`: a hyphen ends a path, whatever follows.
-/

namespace MemberAccess.Source

open Text

/-! ### Classes of characters -/

/-- What holds of no point of some ranges does not hold of a character in them. -/
theorem eq_false_of_ranges {p : Char → Bool} {c : Char} {rs : Ranges} (hrs : rs.Ascending 0)
    (hpoints : ∀ r ∈ rs, ∀ k ≤ r.2 - r.1, p (Char.ofNat (r.1 + k)) = false)
    (hc : rs.contains c.toNat = true) : p c = false := by
  obtain ⟨r, hr, hfirst, hlast⟩ := (Ranges.contains_iff hrs c.toNat).1 hc
  have hpoint := hpoints r hr (c.toNat - r.1) (by omega)
  rwa [Nat.add_sub_cancel' hfirst, Char.ofNat_toNat] at hpoint

/-- No word begins with a blank. -/
theorem isCodeBlank_eq_false {c : Char} (h : startsWord c = true) : isCodeBlank c = false := by
  refine Bool.eq_false_iff.2 fun hblank => ?_
  have hstarts : startsWord c = false :=
    eq_false_of_ranges (by simp [Ranges.Ascending]) (by decide +kernel) hblank
  exact absurd (h.symm.trans hstarts) (by decide)

/-- No word begins with a digit. -/
theorem isDigit_eq_false {c : Char} (h : startsWord c = true) : Digits.isDigit c = false := by
  refine Bool.eq_false_iff.2 fun hdigit => ?_
  have hnine : c.toNat ≤ '9'.toNat := by
    simp only [Digits.isDigit, Bool.and_eq_true, decide_eq_true_eq] at hdigit
    exact hdigit.2
  have hlater : laterStarts.contains c.toNat = false := by
    rw [laterStarts, Ranges.contains, if_pos (Nat.lt_of_le_of_lt hnine (by decide))]
  rw [startsWord, startsIdentifier_of_isDigit hdigit, hlater] at h
  cases h

/-- No word begins with a mark or a bracket. -/
theorem startsWord_eq_false : ∀ c ∈ markChars ++ ['(', '[', '\x7b', ')', ']', '\x7d'],
    startsWord c = false := by
  have hall : (markChars ++ ['(', '[', '\x7b', ')', ']', '\x7d']).all (!startsWord ·) = true := by
    decide +kernel
  exact fun c hc => by simpa using List.all_eq_true.1 hall c hc

/-- A character of a class is not one that is outside of it. -/
theorem ne_of_class {p : Char → Bool} {c d : Char} (h : p c = true) (hd : p d = false) :
    c ≠ d := by
  rintro rfl
  exact absurd (h.symm.trans hd) (by decide)

/-! ### Words -/

/-- **The texts of words,** bare or raw. A word may be a keyword, but some are never raw. -/
inductive IsWordText : List Char → Prop
  | bare {cs : List Char} (h : IsWord cs) : IsWordText cs
  | raw {cs : List Char} (h : IsWord cs) (hraw : String.ofList cs ∉ neverRaw) :
      IsWordText ('r' :: '#' :: cs)

/-- Every character of a word may go on with one. -/
theorem continuesWord_of_isWord {cs : List Char} (h : IsWord cs) :
    ∀ c ∈ cs, continuesWord c = true := by
  cases cs with
  | nil => exact fun c hc => absurd hc List.not_mem_nil
  | cons c cs =>
      have hc : continuesWord c = true := by simp [continuesWord, h.1]
      exact List.forall_mem_cons.2 ⟨hc, h.2⟩

namespace IsWordText

variable {cs : List Char}

/-- The text of a word begins as words do. -/
theorem exists_cons (h : IsWordText cs) : ∃ c more, cs = c :: more ∧ startsWord c = true := by
  cases h with
  | bare h =>
      cases cs with
      | nil => exact h.elim
      | cons c more => exact ⟨c, more, rfl, h.1⟩
  | raw _ _ => exact ⟨_, _, rfl, by decide +kernel⟩

/-- A word has no character but those of words and the mark of a raw one. -/
theorem not_mem (h : IsWordText cs) {c : Char} (hc : continuesWord c = false) (hmark : c ≠ '#') :
    c ∉ cs := by
  have hword : ∀ {more : List Char}, IsWord more → c ∉ more := fun hmore hmem =>
    absurd ((continuesWord_of_isWord hmore c hmem).symm.trans hc) (by decide)
  cases h with
  | bare h => exact hword h
  | raw h _ =>
      have hr : c ≠ 'r' := by
        rintro rfl
        exact absurd hc (by decide +kernel)
      exact List.not_mem_cons_of_ne_of_not_mem hr
        (List.not_mem_cons_of_ne_of_not_mem hmark (hword h))

end IsWordText

/-- **A text that ends a word** in front of it, and has no quotes that would make the word the front
of a literal. -/
structure EndsWordText (more : List Char) : Prop where
  head : ∀ c, more.head? = some c → continuesWord c = false ∧ c ≠ '#'
  quote : '"' ∉ more
  tick : '\x27' ∉ more

variable {cs more : List Char}

/-- The word at the front is as long as it is. -/
theorem plainWordLength_append (h : IsWord cs) (hmore : EndsWordText more) :
    plainWordLength (cs ++ more) = cs.length := by
  cases cs with
  | nil => exact h.elim
  | cons c cs =>
      have hrest := (takeWhile_append_exact h.2 fun c hc => (hmore.head c hc).1).1
      rw [List.cons_append, plainWordLength, if_pos h.1, hrest, List.length_cons, Nat.add_comm]

/-- A bare word is no raw one. -/
theorem append_ne_raw (h : IsWord cs) (hmore : EndsWordText more) (rest : List Char) :
    cs ++ more ≠ 'r' :: '#' :: rest := by
  intro heq
  cases cs with
  | nil => exact h
  | cons c cs =>
      obtain ⟨-, hmark⟩ := List.cons.inj heq
      cases cs with
      | nil => exact (hmore.head '#' (congrArg List.head? hmark)).2 rfl
      | cons d cs =>
          obtain ⟨rfl, -⟩ := List.cons.inj hmark
          exact absurd (h.2 '#' List.mem_cons_self) (by decide +kernel)

/-- In front of an end, a word is as long as its text. -/
theorem wordLength_append (h : IsWordText cs) (hmore : EndsWordText more) :
    wordLength (cs ++ more) = cs.length := by
  cases h with
  | bare h =>
      rw [wordLength.eq_def]
      split
      · rename_i heq
        exact absurd heq (append_ne_raw h hmore _)
      · exact plainWordLength_append h hmore
  | @raw cs h hraw =>
      have hlength := plainWordLength_append h hmore
      have hne : cs.length ≠ 0 := by
        cases cs with
        | nil => exact h.elim
        | cons c cs => exact Nat.succ_ne_zero _
      simp [wordLength, hlength, hne, hraw]

/-! ### Literals -/

/-- Without a quote, there is no raw literal. -/
theorem rawLiteralLength?_eq_none (h : '"' ∉ cs) : rawLiteralLength? cs = none := by
  rw [rawLiteralLength?, splitHashes]
  split
  · rename_i heq
    have hmem : '"' ∈ cs.dropWhile (· = '#') := (Prod.mk.inj heq).2 ▸ List.mem_cons_self
    exact absurd ((List.dropWhile_suffix _).mem hmem) h
  · rfl

/-- There is no literal at the front of a word in a text without quotes. -/
theorem literalLength?_eq_none {c : Char} (hc : startsWord c = true) (hquote : '"' ∉ more)
    (htick : '\x27' ∉ more) : literalLength? (c :: more) = none := by
  have hquote' : c ≠ '"' := ne_of_class hc (by decide +kernel)
  have htick' : c ≠ '\x27' := ne_of_class hc (by decide +kernel)
  have hquoted : quotedLiteralLength? (c :: more) = none := by
    rw [quotedLiteralLength?.eq_def]
    split <;> simp_all [rawLiteralLength?_eq_none]
  simp [literalLength?, isDigit_eq_false hc, hquoted]

/-! ### Pieces -/

/-- There is no comment at the front of a word. -/
theorem comment?_eq_none {c : Char} (hc : startsWord c = true) : comment? (c :: more) = none := by
  have hslash : c ≠ '/' := ne_of_class hc (by decide +kernel)
  rw [comment?.eq_def]
  split
  · rename_i heq
    exact absurd (List.cons.inj heq).1 hslash
  · rename_i heq
    exact absurd (List.cons.inj heq).1 hslash
  · rfl

/-- What begins as a word is one, unless it is a literal. -/
theorem pieceAt?_of_startsWord {c : Char} (hc : startsWord c = true)
    (hliteral : literalLength? (c :: more) = none) (hlength : wordLength (c :: more) ≠ 0) :
    pieceAt? c more = some (.tokens [.word (String.ofList ((c :: more).take
      (wordLength (c :: more))))], wordLength (c :: more)) := by
  have htick : c ≠ '\x27' := ne_of_class hc (by decide +kernel)
  have hne : ∀ d ∈ markChars ++ ['(', '[', '\x7b', ')', ']', '\x7d'], c ≠ d := fun d hd =>
    ne_of_class hc (startsWord_eq_false d hd)
  have hmark : markChars.contains c = false := Bool.eq_false_iff.2 fun hmem =>
    hne c (List.mem_append_left _ (List.contains_iff_mem.1 hmem)) rfl
  have hbrackets : ∀ d ∈ ['(', '[', '\x7b', ')', ']', '\x7d'], c ≠ d := fun d hd =>
    hne d (List.mem_append_right _ hd)
  simp only [List.forall_mem_cons] at hbrackets
  obtain ⟨hround, hsquare, hcurly, hround', hsquare', hcurly', -⟩ := hbrackets
  have hopened : Bracket.opened? c = none := by simp [Bracket.opened?, hround, hsquare, hcurly]
  have hclosed : Bracket.closed? c = none := by simp [Bracket.closed?, hround', hsquare', hcurly']
  simp only [pieceAt?, isCodeBlank_eq_false hc, comment?_eq_none hc, hliteral, hmark, hopened,
    hclosed, htick, hlength, if_false, Bool.false_eq_true]

/-- **A word is split off** from the front of a text without quotes. -/
theorem pieces?_word (h : IsWordText cs) (hmore : EndsWordText more) :
    pieces? (cs ++ more) = (pieces? more).map (.tokens [.word (String.ofList cs)] :: ·) := by
  obtain ⟨c, ds, rfl, hc⟩ := h.exists_cons
  -- Literals are looked for before words, so no quote may stand anywhere behind the first
  -- character.
  have hin : ∀ {e : Char}, continuesWord e = false → e ≠ '#' → e ∉ more → e ∉ ds ++ more := by
    intro e he hmark hmem happ
    have hds : e ∉ ds := fun hds => h.not_mem he hmark (List.mem_cons_of_mem _ hds)
    exact (List.mem_append.1 happ).elim hds hmem
  have hliteral : literalLength? (c :: (ds ++ more)) = none :=
    literalLength?_eq_none hc (hin (by decide +kernel) (by decide) hmore.quote)
      (hin (by decide +kernel) (by decide) hmore.tick)
  have hlength : wordLength (c :: (ds ++ more)) = ds.length + 1 := wordLength_append h hmore
  have hpiece := pieceAt?_of_startsWord hc hliteral (hlength ▸ Nat.succ_ne_zero _)
  rw [List.cons_append, pieces?, hpiece, hlength]
  simp

/-- A colon or a hyphen is split off. -/
theorem pieces?_mark {c : Char} (hc : c = ':' ∨ c = '-') (more : List Char) :
    pieces? (c :: more) = (pieces? more).map (.tokens [.mark c (isJoinedTo more)] :: ·) := by
  have hpiece : pieceAt? c more = some (.tokens [.mark c (isJoinedTo more)], 1) := by
    rcases hc with rfl | rfl <;> rfl
  rw [pieces?, hpiece]
  rfl

/-! ### Absolute paths -/

/-- The text of an absolute path through segments. -/
def absoluteText (words : List String) : List Char :=
  words.flatMap fun word => ':' :: ':' :: word.toList

/-- The tokens of an absolute path through segments. -/
def absoluteTokens (words : List String) : List TokenTree :=
  words.flatMap fun word => symbol "::" ++ [.word word]

/-- Nothing is joined to the front of a word. -/
theorem isJoinedTo_word (h : IsWordText cs) : isJoinedTo (cs ++ more) = false := by
  obtain ⟨c, ds, rfl, hc⟩ := h.exists_cons
  have hmark : c ∉ markChars := fun hmem =>
    ne_of_class hc (startsWord_eq_false c (List.mem_append_left _ hmem)) rfl
  have htick : c ≠ '\x27' := ne_of_class hc (by decide +kernel)
  rw [List.cons_append, isJoinedTo.eq_def]
  split
  · rfl
  · rfl
  · rename_i heq
    obtain ⟨rfl, -⟩ := List.cons.inj heq
    simp [hmark, htick]
  · rfl

/-- An absolute path ends a word in front of it. -/
theorem EndsWordText.absolute {words : List String} (hwords : ∀ w ∈ words, IsWordText w.toList)
    (hmore : EndsWordText more) : EndsWordText (absoluteText words ++ more) := by
  induction words with
  | nil => exact hmore
  | cons word words ih =>
      obtain ⟨hword, hwords⟩ := List.forall_mem_cons.1 hwords
      obtain ⟨-, hquote, htick⟩ := ih hwords
      have hnot : ∀ {c : Char}, continuesWord c = false → c ≠ '#' → c ≠ ':' →
          c ∉ absoluteText words ++ more → c ∉ absoluteText (word :: words) ++ more := by
        intro c hc hmark hcolon hrest
        have hnot := hword.not_mem hc hmark
        simp_all [absoluteText]
      refine ⟨fun c hc => ?_, hnot (by decide +kernel) (by decide) (by decide) hquote,
        hnot (by decide +kernel) (by decide) (by decide) htick⟩
      obtain rfl : ':' = c := Option.some.inj hc
      decide +kernel

/-- **An absolute path is split into** colons and words. -/
theorem pieces?_absoluteText {words : List String} (hwords : ∀ w ∈ words, IsWordText w.toList)
    (hmore : EndsWordText more) :
    pieces? (absoluteText words ++ more) = (pieces? more).map fun ps =>
      (absoluteTokens words).map (fun t => .tokens [t]) ++ ps := by
  induction words with
  | nil => cases h : pieces? more <;> simp [absoluteText, absoluteTokens, h]
  | cons word words ih =>
      obtain ⟨hword, hwords⟩ := List.forall_mem_cons.1 hwords
      have htext : absoluteText (word :: words) ++ more =
          ':' :: ':' :: (word.toList ++ (absoluteText words ++ more)) := by
        simp [absoluteText]
      have hjoined : isJoinedTo (':' :: (word.toList ++ (absoluteText words ++ more))) = true := by
        rw [isJoinedTo.eq_def]
        rfl
      rw [htext, pieces?_mark (.inl rfl), pieces?_mark (.inl rfl), hjoined, isJoinedTo_word hword,
        pieces?_word hword (hmore.absolute hwords), ih hwords]
      simp [absoluteTokens, symbol, marks, Function.comp_def]

/-! ### Groups -/

/-- What stands outside of all groups that are open, the last token first. -/
def outermost : List (Bracket × List TokenTree) → List TokenTree → List TokenTree
  | [], done => done
  | (_, before) :: outer, _ => outermost outer before

/-- What stands outside of all groups stays in front when tokens are added. -/
theorem outermost_append (opened : List (Bracket × List TokenTree)) (ts done : List TokenTree) :
    (outermost opened done).reverse <+: (outermost opened (ts ++ done)).reverse := by
  cases opened with
  | nil => exact ⟨ts.reverse, List.reverse_append.symm⟩
  | cons _ _ => exact List.prefix_rfl

/-- **What was read stays in front** of what is read later. -/
theorem nest?_prefix {opened : List (Bracket × List TokenTree)} {done ts : List TokenTree}
    {ps : List Piece} (h : nest? opened done ps = some ts) :
    (outermost opened done).reverse <+: ts := by
  -- What is outside of all groups stays when one is opened, and grows when the last one is closed.
  fun_induction nest? opened done ps with
  | case1 opened done hopened =>
      obtain rfl : opened = [] := List.isEmpty_iff.1 hopened
      exact Option.some.inj h ▸ List.prefix_rfl
  | case2 => cases h
  | case3 opened done read more ih => exact (outermost_append opened _ done).trans (ih h)
  | case4 opened done b more ih => exact ih h
  | case5 done b more before outer ih => exact (outermost_append outer [_] before).trans (ih h)
  | case6 => cases h
  | case7 => cases h

/-- Tokens outside of groups are read as they are. -/
theorem nest?_tokens (opened : List (Bracket × List TokenTree)) (done ts : List TokenTree)
    (ps : List Piece) :
    nest? opened done (ts.map (fun t => .tokens [t]) ++ ps) =
      nest? opened (ts.reverse ++ done) ps := by
  induction ts generalizing done with
  | nil => rfl
  | cons t ts ih =>
      rw [List.map_cons, List.cons_append, nest?, ih]
      simp

/-- **The tokens of an absolute path.** -/
theorem tokens?_absoluteText {words : List String} (hwords : ∀ w ∈ words, IsWordText w.toList)
    {text : String} (htext : text.toList = absoluteText words) :
    tokens? text = some (absoluteTokens words) := by
  have hends : EndsWordText [] := ⟨fun c hc => (nomatch hc), List.not_mem_nil, List.not_mem_nil⟩
  have hpieces := pieces?_absoluteText hwords hends
  have hnil : pieces? [] = some [] := by rw [pieces?]
  rw [List.append_nil, hnil] at hpieces
  rw [tokens?, htext, hpieces, Option.map_some, Option.bind_some, nest?_tokens]
  simp [nest?]

/-- The tokens of a text that begins with a path and goes on with a hyphen, if it has tokens. -/
theorem tokens?_hyphen {words : List String} (hwords : ∀ w ∈ words, IsWordText w.toList)
    (hquote : '"' ∉ more) (htick : '\x27' ∉ more)
    {text : String} (htext : text.toList = absoluteText words ++ '-' :: more) {ts : List TokenTree}
    (h : tokens? text = some ts) :
    ∃ joined rest, ts = absoluteTokens words ++ .mark '-' joined :: rest := by
  have hends : EndsWordText ('-' :: more) := by
    refine ⟨fun c hc => ?_, ?_, ?_⟩
    · obtain rfl : '-' = c := Option.some.inj hc
      decide +kernel
    · simp [hquote]
    · simp [htick]
  rw [tokens?, htext, pieces?_absoluteText hwords hends, pieces?_mark (.inr rfl)] at h
  cases hmore : pieces? more with
  | none =>
      rw [hmore] at h
      cases h
  | some ps =>
      rw [hmore, Option.map_some, Option.map_some, Option.bind_some, nest?_tokens, nest?] at h
      obtain ⟨rest, rfl⟩ := nest?_prefix h
      refine ⟨isJoinedTo more, rest, ?_⟩
      simp [outermost]

end MemberAccess.Source
