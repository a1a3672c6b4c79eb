import MemberAccess.Proofs.Lambda.Printable
import MemberAccess.Proofs.Lambda.Quotation

/-!
# Splitting printed text

Tokens are taken as long as they can be, so what a piece of text is split into depends on what
comes behind it: a name goes on if a letter follows, a number if a digit does. The lemmas here say,
for each kind of token, which text may follow for the token to end where it was meant to. They
compose: `Writes` relates a text to its tokens in front of whatever text may follow.

## Main definitions

* `Scans`: a text and its tokens, wherever the text stands.
* `Writes`: the tokens of a text before any text of a kind.

## Main results

* `Scans.name`, `Scans.literal`, `Scans.symbol`: one token.
* `IsPath.writes`, `IsType.writes`: the tokens of paths and types, which spell them.
-/

namespace MemberAccess

open Text

/-! ### Scanning -/

/-- **A text is split into tokens,** wherever it stands. -/
def Scans (cs : List Char) (ts : List Token) : Prop :=
  ∀ offset, ∃ placed, scanFrom offset cs = .ok placed ∧ placed.map Placed.token = ts

namespace Scans

variable {cs more : List Char} {ts : List Token} {c : Char}

theorem nil : Scans [] [] :=
  fun _ => ⟨[], by rw [scanFrom], rfl⟩

/-- A blank belongs to no token. -/
theorem blank (hc : isBlank c = true) (h : Scans cs ts) : Scans (c :: cs) ts := by
  intro offset
  obtain ⟨placed, hscan, htokens⟩ := h (offset + c.utf8Size)
  exact ⟨placed, by rw [scanFrom, if_pos hc, hscan], htokens⟩

/-- **A token and what follows it.** -/
theorem piece {t : Token} (hc : isBlank c = false)
    (ht : (Lexeme.first c more).token? = some t) (h : Scans (Lexeme.first c more).rest ts) :
    Scans (c :: more) (t :: ts) := by
  intro offset
  obtain ⟨placed, hscan, htokens⟩ :=
    h (offset + byteLength (Lexeme.first c more).slice)
  refine ⟨⟨t, offset, offset + byteLength (Lexeme.first c more).slice⟩ :: placed, ?_, ?_⟩
  · rw [scanFrom]
    simp only [hc, ht, hscan, Bool.false_eq_true, if_false, Except.map]
  · rw [List.map_cons, htokens]

end Scans

/-! ### Classes of characters -/

/-- A digit begins no identifier. -/
theorem startsIdentifier_of_isDigit {c : Char} (h : Digits.isDigit c = true) :
    startsIdentifier c = false := by
  have hlow : c.toNat < 0x41 := by
    have hnine : c.toNat ≤ '9'.toNat := by
      simp only [Digits.isDigit, Bool.and_eq_true, decide_eq_true_eq] at h
      exact h.2
    exact Nat.lt_of_le_of_lt hnine (by decide)
  have hunderscore : c ≠ '_' := by
    rintro rfl
    exact absurd h (by decide)
  have hranges : identifierStarts.contains c.toNat = false := by
    rw [identifierStarts, Ranges.contains, if_pos hlow]
  rw [startsIdentifier, decide_eq_false hunderscore, hranges]
  rfl

/-- Identifiers and numbers begin with no blank. -/
theorem isBlank_eq_false {c : Char} (h : startsIdentifier c = true ∨ Digits.isDigit c = true) :
    isBlank c = false := by
  refine Bool.eq_false_iff.2 fun hblank => ?_
  simp only [isBlank, Bool.or_eq_true, decide_eq_true_eq] at hblank
  rcases hblank with ((rfl | rfl) | rfl) | rfl <;> revert h <;> decide

/-- A run of a class of characters ends before a text that begins with none of the class. -/
theorem takeWhile_append_exact {p : Char → Bool} {xs more : List Char}
    (hxs : ∀ c ∈ xs, p c = true) (hmore : ∀ c, more.head? = some c → p c = false) :
    (xs ++ more).takeWhile p = xs ∧ (xs ++ more).dropWhile p = more := by
  rw [List.takeWhile_append_of_pos hxs, List.dropWhile_append_of_pos hxs]
  cases more with
  | nil => exact ⟨List.append_nil _, rfl⟩
  | cons c more =>
      have hc := hmore c rfl
      simp only [List.takeWhile_cons, List.dropWhile_cons, hc, Bool.false_eq_true, if_false,
        List.append_nil, and_self]

/-! ### Names -/

/-- **A text that ends what is before it,** if that is a name or a type. -/
def Ends (more : List Char) : Prop :=
  ∀ c, more.head? = some c → continuesIdentifier c = false ∧ c ≠ '#' ∧ c ≠ '='

/-- A character that goes on neither with a name nor with a symbol ends both. -/
theorem Ends.cons {c : Char} (h : continuesIdentifier c = false ∧ c ≠ '#' ∧ c ≠ '=')
    (more : List Char) : Ends (c :: more) := by
  intro d hd
  exact Option.some.inj hd ▸ h

theorem Ends.ne {more : List Char} (h : Ends more) : more.head? ≠ some '=' :=
  fun heq => (h '=' heq).2.2 rfl

/-- **A text that ends the word before it.** -/
def EndsWord (more : List Char) : Prop :=
  ∀ c, more.head? = some c → continuesIdentifier c = false ∧ c ≠ '#'

/-- A character that does not go on with a word ends it. -/
theorem EndsWord.cons {c : Char} (h : continuesIdentifier c = false ∧ c ≠ '#')
    (more : List Char) : EndsWord (c :: more) := by
  intro d hd
  exact Option.some.inj hd ▸ h

/-- What ends a name ends a word. -/
theorem Ends.endsWord {more : List Char} (h : Ends more) : EndsWord more :=
  fun c hc => ⟨(h c hc).1, (h c hc).2.1⟩

/-- A word of a text that it ends in. -/
theorem Scans.word {c : Char} {name more : List Char} {ts : List Token}
    (hc : startsIdentifier c = true) (hname : ∀ d ∈ name, continuesIdentifier d = true)
    (hmore : EndsWord more) (h : Scans more ts) :
    Scans (c :: (name ++ more)) (Lexeme.word (c :: name) :: ts) := by
  obtain ⟨htake, hdrop⟩ := takeWhile_append_exact hname fun d hd => (hmore d hd).1
  have hfirst : Lexeme.first c (name ++ more) = Lexeme.ofWord c (name ++ more) := by
    rw [Lexeme.first, if_pos hc]
    intro d rest heq
    cases name with
    | nil =>
        rw [List.nil_append] at heq
        exact absurd rfl (hmore '#' (heq ▸ rfl)).2
    | cons e name =>
        obtain ⟨rfl, -⟩ := List.cons.inj heq
        exact absurd (hname '#' List.mem_cons_self) (by decide)
  refine .piece (isBlank_eq_false (.inl hc)) ?_ ?_
  · rw [hfirst, Lexeme.ofWord, htake]
  · rw [hfirst, Lexeme.ofWord]
    simp only [hdrop]
    exact h

/-- **A name.** -/
theorem Scans.name {s : String} (hs : IsName s) {more : List Char} {ts : List Token}
    (hmore : EndsWord more) (h : Scans more ts) : Scans (s.toList ++ more) (.ident s :: ts) := by
  obtain ⟨c, name, hchars, hc, hname⟩ := hs.exists_cons
  have hword : Lexeme.word (c :: name) = .ident s := by
    have hne : ∀ t : String, s ≠ t → c :: name ≠ t.toList := by
      intro t ht heq
      exact ht (String.toList_inj.1 (hchars.trans heq))
    have has := hne "as" hs.ne_as
    have htrue := hne "true" hs.ne_true
    have hfalse := hne "false" hs.ne_false
    simp only [String.reduceToList] at has htrue hfalse
    rw [Lexeme.word, if_neg has, if_neg htrue, if_neg hfalse, ← hchars, String.ofList_toList]
  rw [hchars, ← hword]
  exact .word hc hname hmore h

/-- A raw name may be any identifier. -/
theorem Scans.raw {s : String} (hs : IsIdentifier s.toList) {more : List Char} {ts : List Token}
    (hmore : EndsWord more) (h : Scans more ts) :
    Scans ('r' :: '#' :: (s.toList ++ more)) (.ident s :: ts) := by
  obtain ⟨c, name, hchars, hc, hname⟩ := exists_cons_of_isIdentifier hs
  obtain ⟨htake, hdrop⟩ := takeWhile_append_exact hname fun d hd => (hmore d hd).1
  have hfirst : Lexeme.first 'r' ('#' :: (s.toList ++ more)) =
      Lexeme.ofRawWord c (name ++ more) := by
    rw [Lexeme.first.eq_def, if_pos (by decide), hchars]
    exact if_pos ⟨rfl, hc⟩
  refine .piece (by decide) ?_ ?_
  · rw [hfirst, Lexeme.ofRawWord, htake, ← hchars, String.ofList_toList]
  · rw [hfirst, Lexeme.ofRawWord]
    simp only [hdrop]
    exact h

/-! ### First characters -/

/-- A text that begins with another character than `=`, so that it does not continue a symbol
before it. -/
def Opens (cs : List Char) : Prop :=
  ∃ c more, cs = c :: more ∧ c ≠ '='

theorem Opens.ne {cs : List Char} (h : Opens cs) : cs.head? ≠ some '=' := by
  obtain ⟨c, more, rfl, hc⟩ := h
  exact fun heq => hc (Option.some.inj heq)

/-- How a text begins does not depend on what follows. -/
theorem Opens.append {cs : List Char} (h : Opens cs) (more : List Char) : Opens (cs ++ more) := by
  obtain ⟨c, rest, rfl, hc⟩ := h
  exact ⟨c, rest ++ more, rfl, hc⟩

/-- A name does not continue a symbol before it. -/
theorem IsName.opens {s : String} (h : IsName s) : Opens s.toList := by
  obtain ⟨c, more, hs, hc, -⟩ := h.exists_cons
  refine ⟨c, more, hs, ?_⟩
  rintro rfl
  exact absurd hc (by decide)

/-- A path does not continue a symbol before it. -/
theorem IsPath.opens {path : String} (h : IsPath path) : Opens path.toList := by
  induction h with
  | name h => exact h.opens
  | segment _ _ ih =>
      simp only [String.toList_append, List.append_assoc]
      exact ih.append _

/-- A type does not continue a symbol before it. -/
theorem IsType.opens {part : TypePart} {m : Nat} {text : String} (h : IsType part m text) :
    Opens text.toList := by
  induction h with
  | bare hpath => exact hpath.opens
  | applied hpath _ _ =>
      simp only [String.toList_append, List.append_assoc]
      exact hpath.opens.append _
  | last _ ih =>
      rw [String.toList_append]
      exact ih.append _
  | more _ _ ih _ =>
      simp only [String.toList_append, List.append_assoc]
      exact ih.append _

/-! ### Symbols -/

/-- Whether a character begins no other token than a symbol. -/
def isMark (c : Char) : Bool :=
  !startsIdentifier c && !Digits.isDigit c && c ≠ '"' && !isBlank c

/-- A mark is no blank, and begins a symbol. -/
theorem first_of_isMark {c : Char} (hc : isMark c = true) (more : List Char) :
    isBlank c = false ∧ Lexeme.first c more = Lexeme.ofSymbol c more := by
  simp only [isMark, Bool.and_eq_true, Bool.not_eq_true', decide_eq_true_eq] at hc
  obtain ⟨⟨⟨hstarts, hdigit⟩, hquote⟩, hblank⟩ := hc
  refine ⟨hblank, ?_⟩
  rw [Lexeme.first.eq_def, hstarts, hdigit, if_neg hquote]
  rfl

/-- **A symbol of two characters.** -/
theorem Scans.pair {c d : Char} {s : Symbol} {more : List Char} {ts : List Token}
    (hc : isMark c = true) (hs : Symbol.ofPair? c d = some s) (h : Scans more ts) :
    Scans (c :: d :: more) (.symbol s :: ts) := by
  obtain ⟨hblank, hfirst⟩ := first_of_isMark hc (d :: more)
  refine .piece hblank ?_ ?_
  · rw [hfirst, Lexeme.ofSymbol]
    simp only [hs]
  · rw [hfirst, Lexeme.ofSymbol]
    simp only [hs]
    exact h

/-- A symbol of one character begins no other token. -/
theorem isMark_of_ofChar? {c : Char} {s : Symbol} (h : Symbol.ofChar? c = some s) :
    isMark c = true := by
  unfold Symbol.ofChar? at h
  split at h <;> first | decide | cases h

/-- **A symbol of one character,** where it makes no symbol with the next. -/
theorem Scans.mark {c : Char} {s : Symbol} {more : List Char} {ts : List Token}
    (hs : Symbol.ofChar? c = some s)
    (hmore : ∀ d, more.head? = some d → Symbol.ofPair? c d = none) (h : Scans more ts) :
    Scans (c :: more) (.symbol s :: ts) := by
  obtain ⟨hblank, hfirst⟩ := first_of_isMark (isMark_of_ofChar? hs) more
  cases more with
  | nil =>
      refine .piece hblank ?_ ?_
      · rw [hfirst, Lexeme.ofSymbol, hs]
        rfl
      · rw [hfirst, Lexeme.ofSymbol]
        exact h
  | cons d rest =>
      have hpair := hmore d rfl
      refine .piece hblank ?_ ?_
      · rw [hfirst, Lexeme.ofSymbol]
        simp only [hpair, hs, Option.map_some]
      · rw [hfirst, Lexeme.ofSymbol]
        simp only [hpair]
        exact h

/-- Symbols of one character, the bar apart, are continued by `=` at most. -/
theorem Symbol.ofPair?_eq_none {c d : Char} {s : Symbol} (hs : ofChar? c = some s) (hc : c ≠ '|')
    (hd : d ≠ '=') : ofPair? c d = none := by
  unfold ofPair?
  split
  case h_1 => exact absurd rfl hc
  case h_3 | h_8 => cases hs
  case h_2 => cases hs
  case h_9 => rfl
  all_goals exact absurd rfl hd

/-- A bar makes a symbol with a bar only. -/
theorem Symbol.ofPair?_bar {d : Char} (hd : d ≠ '|') : ofPair? '|' d = none := by
  unfold ofPair?
  split
  case h_1 => exact absurd rfl hd
  case h_9 => rfl
  all_goals
    rename_i hbar
    exact absurd hbar (by decide)

/-- A symbol of one character other than the bar. -/
theorem Scans.sign {c : Char} {s : Symbol} {more : List Char} {ts : List Token}
    (hs : Symbol.ofChar? c = some s) (hc : c ≠ '|') (hmore : more.head? ≠ some '=')
    (h : Scans more ts) : Scans (c :: more) (.symbol s :: ts) := by
  refine .mark hs (fun d hd => Symbol.ofPair?_eq_none hs hc ?_) h
  rintro rfl
  exact hmore hd

/-! ### Constants -/

/-- **A text that ends a number:** it begins with no digit, nor with a point before a digit. -/
def EndsNumber (more : List Char) : Prop :=
  (∀ c, more.head? = some c → Digits.isDigit c = false) ∧
    ∀ d rest, more = '.' :: d :: rest → Digits.isDigit d = false

/-- A digit begins a number. -/
theorem first_of_isDigit {c : Char} (hc : Digits.isDigit c = true) (more : List Char) :
    Lexeme.first c more = Lexeme.ofNumber c more := by
  rw [Lexeme.first.eq_def, startsIdentifier_of_isDigit hc, hc, if_neg Bool.false_ne_true,
    if_pos rfl]

namespace Lexeme

/-- What stands behind a run of digits begins with none. -/
theorem isDigit_head_dropWhile (cs : List Char) :
    ∀ c, (cs.dropWhile Digits.isDigit).head? = some c → Digits.isDigit c = false := by
  intro c hc
  have hhead := List.head?_dropWhile_not Digits.isDigit cs
  rwa [hc] at hhead

/-- **A text begins with digits,** perhaps none, and what stands behind them ends a number or is a
point before a digit. -/
theorem exists_digits (cs : List Char) : ∃ digits more, cs = digits ++ more ∧
    (∀ d ∈ digits, Digits.isDigit d = true) ∧
      (EndsNumber more ∨ ∃ d rest, more = '.' :: d :: rest ∧ Digits.isDigit d = true) := by
  refine ⟨_, _, List.takeWhile_append_dropWhile.symm, List.all_eq_true.1 List.all_takeWhile, ?_⟩
  by_cases hpoint : ∃ d rest, cs.dropWhile Digits.isDigit = '.' :: d :: rest ∧
      Digits.isDigit d = true
  · exact .inr hpoint
  · refine .inl ⟨isDigit_head_dropWhile cs, fun d rest heq => Bool.eq_false_iff.2 fun hd => ?_⟩
    exact hpoint ⟨d, rest, heq, hd⟩

/-- A number without a point before a digit is an integer. -/
theorem ofNumber_eq_ofDigits {c : Char} {digits more : List Char}
    (hdigits : ∀ d ∈ digits, Digits.isDigit d = true) (hmore : EndsNumber more) :
    ofNumber c (digits ++ more) = ofDigits (c :: digits) more := by
  obtain ⟨htake, hdrop⟩ := takeWhile_append_exact hdigits hmore.1
  rw [ofNumber, htake, hdrop]
  split
  · rename_i d rest
    rw [hmore.2 d rest rfl, if_neg Bool.false_ne_true]
  · rfl

/-- A point before a digit makes a number a fraction. -/
theorem ofNumber_eq_ofFraction {c d : Char} {digits : List Char}
    (hdigits : ∀ d ∈ digits, Digits.isDigit d = true) (hd : Digits.isDigit d = true)
    (rest : List Char) :
    ofNumber c (digits ++ '.' :: d :: rest) = ofFraction (c :: digits) (d :: rest) := by
  have hpoint : ∀ e, ('.' :: d :: rest).head? = some e → Digits.isDigit e = false :=
    fun e he => Option.some.inj he ▸ rfl
  obtain ⟨htake, hdrop⟩ := takeWhile_append_exact hdigits hpoint
  rw [ofNumber, htake, hdrop]
  simp only [hd, if_true]

end Lexeme

/-- The digits of a number before a text that ends it. -/
theorem Scans.digits {digits more : List Char} {ts : List Token} {n : Nat}
    (hdigits : ∀ c ∈ digits, Digits.isDigit c = true) (hne : digits ≠ [])
    (hvalue : Digits.toNat digits = n) (hn : n ≤ Lexeme.intLimit) (hmore : EndsNumber more)
    (h : Scans more ts) : Scans (digits ++ more) (.literal (.int (Int64.ofNat n)) :: ts) := by
  cases digits with
  | nil => exact absurd rfl hne
  | cons c digits =>
      obtain ⟨hc, hdigits⟩ := List.forall_mem_cons.1 hdigits
      have hfirst : Lexeme.first c (digits ++ more) = Lexeme.ofDigits (c :: digits) more := by
        rw [first_of_isDigit hc, Lexeme.ofNumber_eq_ofDigits hdigits hmore]
      refine .piece (isBlank_eq_false (.inr hc)) ?_ ?_
      · rw [List.append_eq, hfirst, Lexeme.ofDigits]
        simp only [hvalue, hn, if_true]
      · rw [List.append_eq, hfirst]
        exact h

/-- A quoted string. Any text may follow its closing quote. -/
theorem Scans.quoted {s : String} (hs : ∀ c ∈ s.toList, ¬['\\', 'u'] <+: escape c)
    {more : List Char} {ts : List Token} (h : Scans more ts) :
    Scans ((quoted s).toList ++ more) (.literal (.string s) :: ts) := by
  have hplain : ∀ c ∈ s.toList, ¬IsCoded c := fun c hc hcoded =>
    hs c hc (escape_of_isCoded hcoded ▸ List.prefix_append ['\\', 'u'] _)
  obtain ⟨pieces, htext, hunits, hdenote⟩ := exists_units_quoted s.toList
  rw [if_neg (by simpa using hplain)] at hdenote
  rw [toList_quoted, ← htext, List.cons_append, List.append_assoc, List.singleton_append]
  refine .piece (by decide) ?_ ?_
  · rw [Lexeme.first_units hunits]
    simp only [hdenote, Option.map_some, String.ofList_toList]
  · rw [Lexeme.first_units hunits]
    exact h

/-- An integer that is not negative. -/
theorem Scans.int {n : Int64} (hn : 0 ≤ n.toInt) {more : List Char} {ts : List Token}
    (hmore : EndsNumber more) (h : Scans more ts) :
    Scans ((Literal.renderInt n.toInt).toList ++ more) (.literal (.int n) :: ts) := by
  have hcast : (n.toInt.natAbs : Int) = n.toInt := Int.natAbs_of_nonneg hn
  have hbound : n.toInt.natAbs ≤ Lexeme.intLimit := by
    have hlt := n.toInt_lt
    rw [Lexeme.intLimit]
    omega
  have hvalue : Int64.ofNat n.toInt.natAbs = n := by
    rw [← Int64.ofInt_eq_ofNat, hcast, Int64.ofInt_toInt]
  have hdigits := Scans.digits (fun c hc => Digits.isDigit_of_mem_ofNat hc)
    (Digits.ofNat_ne_nil _) (Digits.toNat_ofNat _) hbound hmore h
  rw [hvalue] at hdigits
  rw [Literal.renderInt, if_neg (by omega), List.nil_append, String.toList_ofList]
  exact hdigits

/-- **A text that ends an expression.** -/
structure EndsExpr (more : List Char) : Prop where
  word : Ends more
  number : EndsNumber more

/-- The end of the text, and most marks, end an expression. -/
theorem EndsExpr.nil : EndsExpr [] :=
  ⟨fun _ h => (nomatch h), fun _ h => (nomatch h), fun _ _ h => (nomatch h)⟩

/-- A blank, a comma and a bracket end an expression, except for an opening round one. -/
theorem EndsExpr.cons {c : Char} (h : c ∈ [' ', ',', ')', '[', ']']) (more : List Char) :
    EndsExpr (c :: more) := by
  obtain ⟨hword, hdigit, hdot⟩ : (continuesIdentifier c = false ∧ c ≠ '#' ∧ c ≠ '=') ∧
      Digits.isDigit c = false ∧ c ≠ '.' := by
    simp only [List.mem_cons, List.not_mem_nil, or_false] at h
    rcases h with rfl | rfl | rfl | rfl | rfl <;> decide
  refine ⟨.cons hword more, fun d hd => Option.some.inj hd ▸ hdigit, fun d rest heq => ?_⟩
  exact absurd (List.cons.inj heq).1 hdot

/-- A point before a name ends an expression, even a number. -/
theorem EndsExpr.dot {s : String} (hs : IsName s) (more : List Char) :
    EndsExpr ('.' :: (s.toList ++ more)) := by
  refine ⟨.cons (by decide) _, fun d hd => Option.some.inj hd ▸ rfl, fun d rest heq => ?_⟩
  obtain ⟨c, name, hchars, hc, -⟩ := hs.exists_cons
  rw [hchars] at heq
  obtain rfl : c = d := (List.cons.inj (List.cons.inj heq).2).1
  refine Bool.eq_false_iff.2 fun hdigit => ?_
  exact absurd hc (Bool.eq_false_iff.1 (startsIdentifier_of_isDigit hdigit))

/-- **A constant.** -/
theorem Scans.literal {value : Literal} (hvalue : value.Printable) {more : List Char}
    {ts : List Token} (hmore : EndsExpr more) (h : Scans more ts) :
    Scans (value.render.toList ++ more) (.literal value :: ts) := by
  cases value with
  | int n => exact .int hvalue hmore.number h
  | float _ => exact hvalue.elim
  | string s => exact .quoted hvalue h
  | bool b =>
      cases b with
      | true =>
          show Scans ('t' :: (['r', 'u', 'e'] ++ more)) (Lexeme.word ['t', 'r', 'u', 'e'] :: ts)
          exact .word (by decide) (List.all_eq_true.1 (by decide)) hmore.word.endsWord h
      | false =>
          show Scans ('f' :: (['a', 'l', 's', 'e'] ++ more))
            (Lexeme.word ['f', 'a', 'l', 's', 'e'] :: ts)
          exact .word (by decide) (List.all_eq_true.1 (by decide)) hmore.word.endsWord h

/-- The text of a constant begins with a quote, a digit or a letter. -/
theorem Literal.Printable.opens {value : Literal} (h : value.Printable) :
    Opens value.render.toList := by
  cases value with
  | int n =>
      have hn : ¬n.toInt < 0 := Int.not_lt.2 h
      rw [Literal.render, Literal.renderInt, if_neg hn, List.nil_append, String.toList_ofList]
      cases hdigits : Digits.ofNat n.toInt.natAbs with
      | nil => exact absurd hdigits (Digits.ofNat_ne_nil _)
      | cons c more =>
          refine ⟨c, more, rfl, ?_⟩
          rintro rfl
          have hdigit := Digits.isDigit_of_mem_ofNat (hdigits ▸ List.mem_cons_self)
          exact absurd hdigit (by decide)
  | float _ => exact h.elim
  | string s =>
      rw [Literal.render, quoted, String.toList_ofList]
      exact ⟨'"', _, rfl, by decide⟩
  | bool b => cases b <;> exact ⟨_, _, rfl, by decide⟩

/-! ### Paths and types -/

/-- **A text is written as tokens** in front of any text of a kind. -/
def Writes (follows : List Char → Prop) (cs : List Char) (ts : List Token) : Prop :=
  ∀ more us, follows more → Scans more us → Scans (cs ++ more) (ts ++ us)

/-- **A printed path** is split into the tokens that spell it. -/
theorem IsPath.writes {path : String} (h : IsPath path) :
    ∃ ts, Writes Ends path.toList ts ∧ ∀ rest, SpellsPath (ts ++ rest) path rest := by
  induction h with
  | @name s h =>
      exact ⟨[.ident s], fun more us hmore hus => .name h hmore.endsWord hus, fun rest => .name⟩
  | @segment path s _ h ih =>
      obtain ⟨ts, hwrites, hspells⟩ := ih
      refine ⟨ts ++ [.symbol .colons, .ident s], fun more us hmore hus => ?_, fun rest => ?_⟩
      · have hname : Scans (s.toList ++ more) (.ident s :: us) := .name h hmore.endsWord hus
        have hcolons : Scans (':' :: ':' :: (s.toList ++ more))
            (.symbol .colons :: .ident s :: us) := .pair (by decide) rfl hname
        have hpath := hwrites _ _ (.cons (by decide) _) hcolons
        simp only [String.toList_append, List.append_assoc]
        exact hpath
      · rw [List.append_assoc]
        exact .segment (hspells _)

/-- The tokens of a part of a type. No `<` may follow a type, for it would open arguments. -/
def TypePart.SpelledBy (levels : Nat) (ts : List Token) (text : String) : TypePart → Prop
  | single => ∀ rest, rest.head? ≠ some (.symbol .less) →
      SpellsType .single levels (ts ++ rest) text rest
  | arguments => ∀ rest, SpellsType .arguments levels (ts ++ rest) text rest

/-- **A printed type** is split into the tokens that spell it. -/
theorem IsType.writes {part : TypePart} {m : Nat} {text : String} (h : IsType part m text) :
    ∃ ts, Writes Ends text.toList ts ∧ part.SpelledBy m ts text := by
  induction h with
  | bare hpath =>
      obtain ⟨ts, hwrites, hspells⟩ := hpath.writes
      exact ⟨ts, hwrites, fun rest hrest => .bare (hspells rest) hrest⟩
  | @applied m path args hpath htypes ih =>
      obtain ⟨ts, hwrites, hspells⟩ := hpath.writes
      obtain ⟨us, hargs, hspelled⟩ := ih
      refine ⟨ts ++ .symbol .less :: us, fun more vs hmore hvs => ?_, fun rest _ => ?_⟩
      · have hopen : Scans ('<' :: (args.toList ++ more)) (.symbol .less :: (us ++ vs)) :=
          .sign rfl (by decide) ((htypes.opens.append _).ne) (hargs _ _ hmore hvs)
        have hpath := hwrites _ _ (.cons (by decide) _) hopen
        simp only [String.toList_append, List.append_assoc]
        exact hpath
      · rw [List.append_assoc]
        exact .applied (hspells _) (hspelled rest)
  | @last m type _ ih =>
      obtain ⟨ts, hwrites, hspelled⟩ := ih
      refine ⟨ts ++ [.symbol .greater], fun more us hmore hus => ?_, fun rest => ?_⟩
      · have hclose : Scans ('>' :: more) (.symbol .greater :: us) :=
          .sign rfl (by decide) hmore.ne hus
        have htype := hwrites _ _ (.cons (by decide) _) hclose
        simp only [String.toList_append, List.append_assoc]
        exact htype
      · rw [List.append_assoc]
        exact .last (hspelled _ (by simp))
  | @more m k type args _ _ ih ihargs =>
      obtain ⟨ts, hwrites, hspelled⟩ := ih
      obtain ⟨us, hargs, hspelledArgs⟩ := ihargs
      refine ⟨ts ++ .symbol .comma :: us, fun more vs hmore hvs => ?_, fun rest => ?_⟩
      · have hcomma : Scans (',' :: ' ' :: (args.toList ++ more)) (.symbol .comma :: (us ++ vs)) :=
          .sign rfl (by decide) (by simp) (.blank rfl (hargs _ _ hmore hvs))
        have htype := hwrites _ _ (.cons (by decide) _) hcomma
        simp only [String.toList_append, List.append_assoc]
        exact htype
      · rw [List.append_assoc]
        exact .more (hspelled _ (by simp)) (hspelledArgs rest)

end MemberAccess
