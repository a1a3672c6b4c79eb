import MemberAccess.Lambda.Token.Scan

/-!
# Quoted strings in a text

What stands between the quotes of a string constant is a run of units, and a text is split into the
same units wherever it is quoted. So a quoted text is always one piece, which ends at its last
quote. Whether the piece is a token depends on the escapes: some characters are printed by their
code point, and that is no escape of a string constant.

## Main definitions

* `Text.IsCoded`: the characters that are printed by their code point.
* `StringPiece.IsInner`: the units that do not end a string.

## Main results

* `StringPiece.split_units`: units before a quote are split off.
* `exists_units_quoted`: the units of a printed string, and what they denote.
* `Lexeme.first_units`, `scan_units`: the piece that units between quotes are, and its token.
* `scan_render_string`: a printed string is one token if none of its characters is coded, and else
  is rejected as a whole.
-/

namespace MemberAccess

open Text

/-! ### Characters -/

namespace Text

/-- **The characters that are printed by their code point:** those without a short escape that can
not be seen on their own. -/
def IsCoded (c : Char) : Prop :=
  c ∉ ['"', '\\', '\n', '\r', '\t', '\x00'] ∧ (isPrintable c = false ∨ attaches c = true)

instance : DecidablePred IsCoded := fun c =>
  inferInstanceAs (Decidable (c ∉ _ ∧ (isPrintable c = false ∨ attaches c = true)))

/-- A coded character is written by the digits of its code point. -/
theorem escape_of_isCoded {c : Char} (h : IsCoded c) :
    escape c = '\\' :: 'u' :: '\x7b' :: (hexadecimal c.toNat ++ ['\x7d']) := by
  obtain ⟨hshort, hunseen⟩ := h
  simp only [List.mem_cons, List.not_mem_nil, or_false, not_or] at hshort
  obtain ⟨hquote, hslash, hfeed, hreturn, htab, hzero⟩ := hshort
  have hcode : c.toNat ≠ 0 := fun hnat => hzero (Char.toNat_inj.1 hnat)
  have hseen : (isPrintable c && !attaches c) = false := by
    rcases hunseen with h | h <;> simp [h]
  simp only [escape, hquote, hslash, hfeed, hreturn, htab, hcode, hseen, if_false,
    Bool.false_eq_true, List.cons_append, List.nil_append]

/-- A character without a short escape is printed as it is, unless it is coded. -/
theorem escape_of_not_isCoded {c : Char} (hshort : c ∉ ['"', '\\', '\n', '\r', '\t', '\x00'])
    (h : ¬IsCoded c) : escape c = [c] := by
  have hseen : (isPrintable c && !attaches c) = true := by
    simpa [IsCoded, hshort] using h
  simp only [List.mem_cons, List.not_mem_nil, or_false, not_or] at hshort
  obtain ⟨hquote, hslash, hfeed, hreturn, htab, hzero⟩ := hshort
  have hcode : c.toNat ≠ 0 := fun hnat => hzero (Char.toNat_inj.1 hnat)
  simp only [escape, hquote, hslash, hfeed, hreturn, htab, hcode, hseen, if_false, if_true]

/-- The digits of a code point are the digits below sixteen. -/
theorem exists_digit_of_mem_hexadecimal {n : Nat} {c : Char} (h : c ∈ hexadecimal n) :
    ∃ d < 16, c = d.digitChar := by
  rw [hexadecimal] at h
  induction n using Nat.strongRecOn with
  | ind n ih =>
      rw [Nat.toDigits_eq_if (by decide)] at h
      split at h
      · rename_i hsmall
        exact ⟨n, hsmall, List.mem_singleton.1 h⟩
      · rename_i hlarge
        rcases List.mem_append.1 h with h | h
        · exact ih (n / 16) (by omega) h
        · exact ⟨n % 16, by omega, List.mem_singleton.1 h⟩

/-- The digits of a code point are neither quotes nor backslashes. -/
theorem ne_of_mem_hexadecimal {n : Nat} {c : Char} (h : c ∈ hexadecimal n) :
    c ≠ '"' ∧ c ≠ '\\' := by
  have hdigit : ∀ d < 16, d.digitChar ≠ '"' ∧ d.digitChar ≠ '\\' := by decide
  obtain ⟨d, hd, rfl⟩ := exists_digit_of_mem_hexadecimal h
  exact hdigit d hd

end Text

/-! ### Units -/

namespace StringPiece

/-- **A unit that does not end a string:** a character that is no quote and no backslash, or any
character but a line feed behind a backslash. -/
def IsInner : StringPiece → Prop
  | plain c => c ≠ '"' ∧ c ≠ '\\'
  | escaped c => c ≠ '\n'

/-- **Units before a quote are split off,** whatever follows the quote. -/
theorem split_units {pieces : List StringPiece} (h : ∀ p ∈ pieces, p.IsInner) (more : List Char) :
    split (pieces.flatMap text ++ '"' :: more) = (pieces, '"' :: more) := by
  induction pieces with
  | nil =>
      rw [List.flatMap_nil, List.nil_append, split, if_pos (.inl rfl)]
      exact fun d rest heq _ => absurd heq (by decide)
  | cons p pieces ih =>
      obtain ⟨hp, hpieces⟩ := List.forall_mem_cons.1 h
      rw [List.flatMap_cons, List.append_assoc]
      cases p with
      | plain c =>
          rw [text, List.singleton_append, split, if_neg (not_or.2 hp), ih hpieces]
          exact fun d rest heq _ => hp.2 heq
      | escaped c =>
          rw [text, List.cons_append, List.singleton_append, split, if_neg hp, ih hpieces]

/-- What is split off is units. -/
theorem isInner_of_mem_split {cs : List Char} : ∀ p ∈ (split cs).1, p.IsInner := by
  induction cs using split.induct with
  | case1 => exact fun p hp => absurd hp List.not_mem_nil
  | case2 => exact fun p hp => absurd hp List.not_mem_nil
  | case3 c more hc ih =>
      rw [split, if_neg hc]
      exact List.forall_mem_cons.2 ⟨hc, ih⟩
  | case4 c more hc hend =>
      rw [split, if_pos hend]
      · exact fun p hp => absurd hp List.not_mem_nil
      · exact hc
  | case5 c more hc hplain ih =>
      rw [split, if_neg hplain]
      · exact List.forall_mem_cons.2 ⟨not_or.1 hplain, ih⟩
      · exact hc

/-- Pieces after one another denote what they denote each, and nothing if one of them does. -/
theorem denote?_append (front back : List StringPiece) :
    denote? (front ++ back) = (denote? front).bind fun s => (denote? back).map (s ++ ·) := by
  rw [denote?, denote?, denote?, List.mapM_append]
  cases List.mapM value? front with
  | none => rfl
  | some s => cases List.mapM value? back <;> rfl

end StringPiece

open StringPiece

/-! ### Printed strings -/

/-- The unit of a character that is not coded. -/
theorem exists_unit_escape {c : Char} (h : ¬IsCoded c) :
    ∃ p : StringPiece, p.text = escape c ∧ p.IsInner ∧ p.value? = some c := by
  by_cases hshort : c ∈ ['"', '\\', '\n', '\r', '\t', '\x00']
  · simp only [List.mem_cons, List.not_mem_nil, or_false] at hshort
    rcases hshort with rfl | rfl | rfl | rfl | rfl | rfl
    · exact ⟨.escaped '"', rfl, by simp [IsInner], rfl⟩
    · exact ⟨.escaped '\\', rfl, by simp [IsInner], rfl⟩
    · exact ⟨.escaped 'n', rfl, by simp [IsInner], rfl⟩
    · exact ⟨.escaped 'r', rfl, by simp [IsInner], rfl⟩
    · exact ⟨.escaped 't', rfl, by simp [IsInner], rfl⟩
    · exact ⟨.escaped '0', rfl, by simp [IsInner], rfl⟩
  · refine ⟨.plain c, (escape_of_not_isCoded hshort h).symm, ?_, rfl⟩
    simp only [List.mem_cons, not_or] at hshort
    exact ⟨hshort.1, hshort.2.1⟩

/-- The units of a coded character. They denote nothing, since the first of them does not. -/
theorem exists_units_coded {c : Char} (h : IsCoded c) :
    ∃ pieces : List StringPiece, pieces.flatMap text = escape c ∧ (∀ p ∈ pieces, p.IsInner) ∧
      denote? pieces = none := by
  refine ⟨.escaped 'u' :: .plain '\x7b' :: ((hexadecimal c.toNat).map .plain ++ [.plain '\x7d']),
    ?_, ?_, ?_⟩
  · rw [escape_of_isCoded h]
    simp [text, List.flatMap_map]
  · simp only [List.forall_mem_cons, List.forall_mem_append, List.forall_mem_map]
    exact ⟨by simp [IsInner], by simp [IsInner], fun d hd => ne_of_mem_hexadecimal hd,
      by simp [IsInner]⟩
  · rw [denote?, List.mapM_cons]
    rfl

/-- **The units of a printed string** denote the string, unless it has a coded character. -/
theorem exists_units_quoted (cs : List Char) :
    ∃ pieces : List StringPiece, pieces.flatMap text = cs.flatMap escape ∧
      (∀ p ∈ pieces, p.IsInner) ∧
      denote? pieces = if cs.any (IsCoded ·) then none else some cs := by
  induction cs with
  | nil => exact ⟨[], rfl, fun p hp => absurd hp List.not_mem_nil, by simp [denote?]⟩
  | cons c cs ih =>
      obtain ⟨pieces, htext, hunits, hdenote⟩ := ih
      obtain ⟨front, hfront, hfrontUnits, hvalue⟩ : ∃ front : List StringPiece,
          front.flatMap text = escape c ∧ (∀ p ∈ front, p.IsInner) ∧
            denote? front = if IsCoded c then none else some [c] := by
        by_cases hcoded : IsCoded c
        · simpa only [if_pos hcoded] using exists_units_coded hcoded
        · obtain ⟨p, hp, hunit, hvalue⟩ := exists_unit_escape hcoded
          refine ⟨[p], by simpa using hp, by simpa using hunit, ?_⟩
          rw [if_neg hcoded, denote?, List.mapM_cons, hvalue]
          rfl
      refine ⟨front ++ pieces, ?_, List.forall_mem_append.2 ⟨hfrontUnits, hunits⟩, ?_⟩
      · rw [List.flatMap_append, List.flatMap_cons, hfront, htext]
      · rw [denote?_append, hvalue, hdenote]
        by_cases hcoded : IsCoded c
        · simp [hcoded]
        · cases hmore : cs.any (IsCoded ·) <;> simp [hcoded, hmore]

/-- A quoted string is its escaped characters between quotes. -/
theorem toList_quoted (s : String) :
    (quoted s).toList = '"' :: (s.toList.flatMap escape ++ ['"']) := by
  rw [quoted, String.toList_ofList, List.cons_append]

/-! ### Pieces and tokens -/

/-- **The piece of a quoted text** ends at its last quote. -/
theorem Lexeme.first_units {pieces : List StringPiece} (h : ∀ p ∈ pieces, p.IsInner)
    (more : List Char) :
    first '"' (pieces.flatMap text ++ '"' :: more) =
      ⟨(denote? pieces).map fun s => .literal (.string (String.ofList s)),
        '"' :: (pieces.flatMap text ++ ['"']), more⟩ := by
  rw [first.eq_def, if_neg (by decide), if_neg (by decide), if_pos rfl, ofString, split_units h]
  rfl

/-- **A quoted text alone** is the string that its units denote, or is rejected as a whole. -/
theorem scan_units {pieces : List StringPiece} (h : ∀ p ∈ pieces, p.IsInner) :
    scan ('"' :: (pieces.flatMap text ++ ['"'])) =
      match denote? pieces with
      | some s => .ok [⟨.literal (.string (String.ofList s)), 0,
          byteLength ('"' :: (pieces.flatMap text ++ ['"']))⟩]
      | none => .error ⟨0, '"' :: (pieces.flatMap text ++ ['"'])⟩ := by
  have hblank : isBlank '"' = false := by decide
  rw [scan, scanFrom]
  simp only [Lexeme.first_units h, hblank, Bool.false_eq_true, if_false]
  cases denote? pieces with
  | none => rfl
  | some s => simp [scanFrom, Except.map]

/-- A printed string without coded characters is one token. -/
theorem scan_quoted {s : String} (h : ∀ c ∈ s.toList, ¬IsCoded c) :
    scan (quoted s).toList = .ok [⟨.literal (.string s), 0, byteLength (quoted s).toList⟩] := by
  obtain ⟨pieces, htext, hunits, hdenote⟩ := exists_units_quoted s.toList
  rw [if_neg (by simpa using h)] at hdenote
  rw [toList_quoted, ← htext, scan_units hunits, hdenote]
  simp only [String.ofList_toList]

/-- A printed string with a coded character is rejected as a whole. -/
theorem scan_quoted_of_isCoded {s : String} (h : ∃ c ∈ s.toList, IsCoded c) :
    scan (quoted s).toList = .error ⟨0, (quoted s).toList⟩ := by
  obtain ⟨pieces, htext, hunits, hdenote⟩ := exists_units_quoted s.toList
  rw [if_pos (by simpa using h)] at hdenote
  rw [toList_quoted, ← htext, scan_units hunits, hdenote]

/-- **A printed string is one token,** and the token is the string, if none of its characters is
printed by its code point. If one is, the printed string is rejected as a whole. -/
theorem scan_render_string (s : String) :
    ((∀ c ∈ s.toList, ¬IsCoded c) → scan (Literal.string s).render.toList =
      .ok [⟨.literal (.string s), 0, byteLength (Literal.string s).render.toList⟩]) ∧
    ((∃ c ∈ s.toList, IsCoded c) → scan (Literal.string s).render.toList =
      .error ⟨0, (Literal.string s).render.toList⟩) := by
  rw [Literal.render]
  exact ⟨scan_quoted, scan_quoted_of_isCoded⟩

/-- Quotes, backslashes and line breaks have escapes of their own, and read back. -/
theorem scan_render_escaped :
    (∀ c ∈ "\"a\\b'\n".toList, ¬IsCoded c) ∧ scan (Literal.string "\"a\\b'\n").render.toList =
      .ok [⟨.literal (.string "\"a\\b'\n"), 0, 11⟩] := by
  have hcoded : "\"a\\b'\n".toList.all (!IsCoded ·) = true := by decide +kernel
  have hplain : ∀ c ∈ "\"a\\b'\n".toList, ¬IsCoded c := fun c hc => by
    simpa using List.all_eq_true.1 hcoded c hc
  exact ⟨hplain, (scan_render_string _).1 hplain⟩

/-- An accent alone is printed by its code point, and does not read back. -/
theorem accent_not_scanned :
    ¬∀ s : String, (scan (Literal.string s).render.toList).map (·.map Placed.token) =
      .ok [.literal (.string s)] := by
  intro h
  have haccent : ∃ c ∈ "\u0301".toList, IsCoded c := ⟨'\u0301', by decide, by decide +kernel⟩
  have hscan := h "\u0301"
  rw [Literal.render, scan_quoted_of_isCoded haccent] at hscan
  cases hscan

end MemberAccess
