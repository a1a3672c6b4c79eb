import MemberAccess.Proofs.Binary64.Layout
import MemberAccess.Proofs.Lambda.Lexing

/-!
# Tokens that come from a text

Not every token has a text. Signs are symbols, so the numbers among the tokens of a text are not
negative, and none is not-a-number; its names are identifiers. Such a token is split off again from
its own text, unless the text says something else: a raw name may be a keyword, which it is once the
mark is gone, and some constants are printed in a notation that is not read.

## Main definitions

* `Token.IsScanned`: the tokens that a text may be split into.
* `Token.IsLegible`: the tokens whose texts say what they are.
* `LegibleText`: the texts whose tokens do.

## Main results

* `isScanned_of_scan`: the tokens of a text.
* `Scans.fraction`: a numeral with a point is split off as a double.
* `Scans.constant`: so is the text of a legible constant as the constant.
-/

namespace MemberAccess

open Text Binary64

/-! ### What a text is split into -/

/-- **A constant in a text** bears no sign, and is a number if it is a double. -/
def Literal.IsScanned : Literal → Prop
  | int n => 0 ≤ n.toInt
  | float x => ∃ n, x = ofRank false n
  | string _ | bool _ => True

/-- **A token of a text.** -/
def Token.IsScanned : Token → Prop
  | literal value => value.IsScanned
  | ident name => IsIdentifier name.toList
  | symbol _ | keywordAs => True

namespace Lexeme

/-- If a piece is a token, then it is a token of a text. -/
def IsScanned (piece : Lexeme) : Prop :=
  ∀ t, piece.token? = some t → t.IsScanned

/-- The characters of a word are those of an identifier. -/
theorem isIdentifier_takeWhile {c : Char} (hc : startsIdentifier c = true) (more : List Char) :
    IsIdentifier (c :: more.takeWhile continuesIdentifier) :=
  ⟨hc, List.all_eq_true.1 List.all_takeWhile⟩

/-- A word of a text is one that a text may be split into. -/
theorem isScanned_ofWord {c : Char} (hc : startsIdentifier c = true) (more : List Char) :
    (ofWord c more).IsScanned := by
  intro t ht
  obtain rfl := Option.some.inj ht
  rw [word]
  split
  · exact trivial
  split
  · exact trivial
  split
  · exact trivial
  · rw [Token.IsScanned, String.toList_ofList]
    exact isIdentifier_takeWhile hc more

/-- So is a raw word. -/
theorem isScanned_ofRawWord {c : Char} (hc : startsIdentifier c = true) (more : List Char) :
    (ofRawWord c more).IsScanned := by
  intro t ht
  obtain rfl := Option.some.inj ht
  rw [Token.IsScanned, String.toList_ofList]
  exact isIdentifier_takeWhile hc more

/-- A numeral without a sign denotes no negative number. -/
theorem exists_rank_ofDecimal (digits : Nat) (exponent : Int) :
    ∃ n, ofDecimal false digits exponent = ofRank false n := by
  rw [ofDecimal]
  split
  · exact ⟨0, rfl⟩
  split
  · have hinfinite : ofRank false rankLimit = infinite false := dif_neg (Nat.lt_irrefl _)
    exact ⟨rankLimit, hinfinite.symm⟩
  · exact ⟨_, rfl⟩

/-- A number with a point bears no sign. -/
theorem isScanned_ofFraction (whole more : List Char) : (ofFraction whole more).IsScanned := by
  intro t ht
  obtain rfl := Option.some.inj ht
  exact exists_rank_ofDecimal _ _

/-- Digits alone are no negative number. -/
theorem isScanned_ofDigits (digits rest : List Char) : (ofDigits digits rest).IsScanned := by
  intro t ht
  simp only [ofDigits] at ht
  split at ht
  next hn =>
      obtain rfl := Option.some.inj ht
      have hbound : Digits.toNat digits < 2 ^ 63 := Nat.lt_succ_of_le hn
      have hvalue : (Int64.ofNat (Digits.toNat digits)).toInt = Digits.toNat digits :=
        Int64.toInt_ofNat_of_lt hbound
      rw [Token.IsScanned, Literal.IsScanned, hvalue]
      exact Int.natCast_nonneg _
  · cases ht

/-- A number of a text bears no sign. -/
theorem isScanned_ofNumber (c : Char) (more : List Char) : (ofNumber c more).IsScanned := by
  rw [ofNumber]
  split
  · split
    · exact isScanned_ofFraction _ _
    · exact isScanned_ofDigits _ _
  · exact isScanned_ofDigits _ _

theorem isScanned_ofString (more : List Char) : (ofString more).IsScanned := by
  intro t ht
  simp only [ofString] at ht
  split at ht
  · obtain ⟨s, -, rfl⟩ := Option.map_eq_some_iff.1 ht
    exact trivial
  · cases ht

theorem isScanned_ofSymbol (c : Char) (more : List Char) : (ofSymbol c more).IsScanned := by
  have hchar : ∀ t, (Symbol.ofChar? c).map Token.symbol = some t → t.IsScanned := by
    intro t ht
    obtain ⟨s, -, rfl⟩ := Option.map_eq_some_iff.1 ht
    exact trivial
  rw [ofSymbol.eq_def]
  split
  · split
    · intro t ht
      obtain rfl := Option.some.inj ht
      exact trivial
    · exact hchar
  · exact hchar

/-- The first token of a text is one that a text may be split into. -/
theorem isScanned_first (c : Char) (more : List Char) : (first c more).IsScanned := by
  rw [first.eq_def]
  split
  next hc =>
      split
      · split
        next hraw => exact isScanned_ofRawWord hraw.2 _
        next => exact isScanned_ofWord hc _
      · exact isScanned_ofWord hc _
  · split
    · exact isScanned_ofNumber _ _
    split
    · exact isScanned_ofString _
    · exact isScanned_ofSymbol _ _

end Lexeme

/-- The tokens of a text that begins anywhere are tokens of a text. -/
theorem isScanned_of_scanFrom {offset : Nat} {cs : List Char} {placed : List Placed}
    (h : scanFrom offset cs = .ok placed) : ∀ p ∈ placed, p.token.IsScanned := by
  fun_induction scanFrom offset cs generalizing placed with
  | case1 =>
      cases h
      exact fun p hp => nomatch hp
  | case2 offset c more _ ih => exact ih h
  | case3 => cases h
  | case4 offset c more _ piece stop token htoken =>
      rename_i ih
      cases hrest : scanFrom stop piece.rest with
      | error e =>
          rw [hrest] at h
          cases h
      | ok later =>
          rw [hrest] at h
          cases h
          exact List.forall_mem_cons.2 ⟨Lexeme.isScanned_first c more token htoken, ih hrest⟩

/-- **The tokens of a text.** -/
theorem isScanned_of_scan {cs : List Char} {placed : List Placed} (h : scan cs = .ok placed) :
    ∀ p ∈ placed, p.token.IsScanned :=
  isScanned_of_scanFrom h

/-- The tokens of a text, without their places, are tokens of a text. -/
theorem isScanned_of_tokens {cs : List Char} {ts : List Token}
    (h : (scan cs).map (List.map Placed.token) = .ok ts) : ∀ t ∈ ts, t.IsScanned := by
  cases hscan : scan cs with
  | error e =>
      rw [hscan] at h
      cases h
  | ok placed =>
      rw [hscan] at h
      obtain rfl : placed.map Placed.token = ts := Except.ok.inj h
      exact List.forall_mem_map.2 (isScanned_of_scan hscan)

/-! ### Texts that say what a token is -/

/-- **A legible constant.** A double is printed with a point, and no character of a string by its
code point. -/
def Literal.IsLegible : Literal → Prop
  | float x => '.' ∈ x.render.toList
  | string s => ∀ c ∈ s.toList, ¬['\\', 'u'] <+: escape c
  | int _ | bool _ => True

/-- **A legible token.** No name is a keyword or a truth value. -/
def Token.IsLegible : Token → Prop
  | literal value => value.IsLegible
  | ident name => name ∉ ["as", "true", "false"]
  | symbol _ | keywordAs => True

instance : DecidablePred Literal.IsLegible
  | .float x => inferInstanceAs (Decidable ('.' ∈ x.render.toList))
  | .string s => inferInstanceAs (Decidable (∀ c ∈ s.toList, ¬['\\', 'u'] <+: escape c))
  | .int _ | .bool _ => .isTrue trivial

instance : DecidablePred Token.IsLegible
  | .literal value => inferInstanceAs (Decidable value.IsLegible)
  | .ident name => inferInstanceAs (Decidable (name ∉ ["as", "true", "false"]))
  | .symbol _ | .keywordAs => .isTrue trivial

/-- **A legible text** is split into legible tokens. -/
def LegibleText (source : String) : Prop :=
  ∃ placed, scan source.toList = .ok placed ∧ ∀ p ∈ placed, p.token.IsLegible

instance (source : String) : Decidable (LegibleText source) :=
  match h : scan source.toList with
  | .ok placed => decidable_of_iff (∀ p ∈ placed, p.token.IsLegible)
      ⟨fun hp => ⟨placed, h, hp⟩, fun ⟨_, h', hp⟩ => Except.ok.inj (h.symm.trans h') ▸ hp⟩
  | .error _ => .isFalse fun ⟨_, h', _⟩ => nomatch h.symm.trans h'

/-- A legible name of a text. -/
theorem IsName.of_ident {name : String} (hscanned : (Token.ident name).IsScanned)
    (hlegible : (Token.ident name).IsLegible) : IsName name := by
  simp only [Token.IsLegible, List.mem_cons, List.not_mem_nil, or_false, not_or] at hlegible
  exact ⟨hscanned, hlegible.1, hlegible.2.1, hlegible.2.2⟩

/-! ### Numerals -/

/-- An exponent is split off before a text that ends an expression. -/
theorem splitExponent_of_exponentText {marks more : List Char} {exponent : Int}
    (h : ExponentText marks exponent) (hmore : EndsExpr more) :
    ∃ signs digits, Lexeme.splitExponent (marks ++ more) = (signs, digits, more) ∧
      Lexeme.exponentValue signs digits = exponent := by
  cases h with
  | none =>
      refine ⟨[], [], ?_, rfl⟩
      cases more with
      | nil => rfl
      | cons c more =>
          have hc := (hmore.word c rfl).1
          have hmark : ¬(c = 'e' ∨ c = 'E') := by
            rintro (rfl | rfl)
            · exact absurd hc (by decide)
            · exact absurd hc (by decide)
          simp only [List.nil_append, Lexeme.splitExponent, hmark, false_and, if_false]
  | @positive ds hds =>
      obtain ⟨htake, hdrop⟩ := takeWhile_append_exact hds.digits hmore.number.1
      refine ⟨['e'], ds, ?_, rfl⟩
      cases ds with
      | nil => exact absurd rfl hds.ne_nil
      | cons d ds =>
          have hd := hds.digits d List.mem_cons_self
          have hsign : ¬(d = '+' ∨ d = '-') := by
            rintro (rfl | rfl)
            · exact absurd hd (by decide)
            · exact absurd hd (by decide)
          simp only [List.cons_append] at htake hdrop ⊢
          simp [Lexeme.splitExponent, hsign, htake, hdrop]
  | @negative ds hds =>
      obtain ⟨htake, hdrop⟩ := takeWhile_append_exact hds.digits hmore.number.1
      refine ⟨['e', '-'], ds, ?_, rfl⟩
      simp [Lexeme.splitExponent, htake, hdrop, hds.ne_nil]

/-- An exponent, and what ends an expression after it, begins with no digit. -/
theorem head_exponentText {marks more : List Char} {exponent : Int}
    (h : ExponentText marks exponent) (hmore : EndsExpr more) :
    ∀ c, (marks ++ more).head? = some c → Digits.isDigit c = false := by
  cases h with
  | none => exact hmore.number.1
  | positive _ => exact fun c hc => Option.some.inj hc ▸ rfl
  | negative _ => exact fun c hc => Option.some.inj hc ▸ rfl

/-- **A numeral with a point** is split off as the double that it denotes. -/
theorem Scans.fraction {text more : List Char} {x : Binary64} {ts : List Token}
    (hx : PointNumeral text x) (hmore : EndsExpr more) (h : Scans more ts) :
    Scans (text ++ more) (.literal (.float x) :: ts) := by
  obtain @⟨whole, part, marks, exponent, hwhole, hpart, hmarks⟩ := hx
  obtain ⟨c, digits, rfl⟩ := List.exists_cons_of_ne_nil hwhole.ne_nil
  obtain ⟨hc, hdigits⟩ := List.forall_mem_cons.1 hwhole.digits
  obtain ⟨hpartTake, hpartDrop⟩ :=
    takeWhile_append_exact hpart.digits (head_exponentText hmarks hmore)
  obtain ⟨signs, exponentDigits, hsplit, hexponent⟩ := splitExponent_of_exponentText hmarks hmore
  have hfirst : Lexeme.first c (digits ++ '.' :: (part ++ (marks ++ more))) =
      Lexeme.ofFraction (c :: digits) (part ++ (marks ++ more)) := by
    obtain ⟨d, part, rfl⟩ := List.exists_cons_of_ne_nil hpart.ne_nil
    rw [first_of_isDigit hc]
    exact Lexeme.ofNumber_eq_ofFraction hdigits (hpart.digits d List.mem_cons_self) _
  simp only [List.cons_append, List.append_assoc]
  refine .piece (isBlank_eq_false (.inr hc)) ?_ ?_
  · rw [hfirst, Lexeme.ofFraction, hpartTake, hpartDrop, hsplit]
    simp only [hexponent]
  · rw [hfirst, Lexeme.ofFraction, hpartDrop, hsplit]
    exact h

/-! ### Constants -/

/-- The text of a legible double of a text is a numeral with a point. -/
theorem pointNumeral_render {x : Binary64} (hscanned : (Literal.float x).IsScanned)
    (hlegible : (Literal.float x).IsLegible) : PointNumeral x.render.toList x := by
  obtain ⟨n, rfl⟩ := hscanned
  rw [Literal.IsLegible] at hlegible
  by_cases hlimit : n < rankLimit
  · have htext : (ofRank false n).render.toList = renderMagnitude n := by
      rw [ofRank, dif_pos hlimit, render, String.toList_ofList]
      rfl
    rw [htext] at hlegible ⊢
    exact pointNumeral_magnitude hlimit hlegible
  · rw [ofRank, dif_neg hlimit] at hlegible
    exact absurd hlegible (by decide)

/-- A legible constant of a text is printable, or a double with a point. -/
theorem Literal.printable_or_float {value : Literal} (hscanned : value.IsScanned)
    (hlegible : value.IsLegible) :
    value.Printable ∨ ∃ x, value = .float x ∧ PointNumeral value.render.toList x := by
  cases value with
  | int n => exact .inl hscanned
  | float x => exact .inr ⟨x, rfl, pointNumeral_render hscanned hlegible⟩
  | string s => exact .inl hlegible
  | bool b => exact .inl trivial

/-- **The text of a legible constant.** -/
theorem Scans.constant {value : Literal} (hscanned : value.IsScanned) (hlegible : value.IsLegible)
    {more : List Char} {ts : List Token} (hmore : EndsExpr more) (h : Scans more ts) :
    Scans (value.render.toList ++ more) (.literal value :: ts) := by
  rcases Literal.printable_or_float hscanned hlegible with hprintable | ⟨x, rfl, hx⟩
  · exact .literal hprintable hmore h
  · exact .fraction hx hmore h

/-- The text of a legible constant begins with a quote, a digit or a letter. -/
theorem Literal.IsLegible.opens {value : Literal} (hlegible : value.IsLegible)
    (hscanned : value.IsScanned) : Opens value.render.toList := by
  rcases Literal.printable_or_float hscanned hlegible with hprintable | ⟨x, rfl, hx⟩
  · exact hprintable.opens
  · rw [Literal.render] at hx ⊢
    generalize x.render.toList = text at hx
    obtain @⟨whole, part, marks, exponent, hwhole, -, -⟩ := hx
    obtain ⟨c, digits, rfl⟩ := List.exists_cons_of_ne_nil hwhole.ne_nil
    refine ⟨c, _, rfl, ?_⟩
    rintro rfl
    exact absurd (hwhole.digits '=' List.mem_cons_self) (by decide)

/-- A constant of a text equals itself. -/
theorem Literal.IsScanned.equal_self {value : Literal} (h : value.IsScanned) :
    value.equal value = true := by
  cases value with
  | int n => exact decide_eq_true rfl
  | float x =>
      obtain ⟨n, rfl⟩ := h
      rw [Literal.equal, ofRank]
      split
      · simp [Binary64.equal]
      · simp [Binary64.equal]
  | string s => exact decide_eq_true rfl
  | bool b => exact decide_eq_true rfl

end MemberAccess
