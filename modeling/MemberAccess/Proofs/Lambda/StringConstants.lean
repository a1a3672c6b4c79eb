import MemberAccess.Proofs.Lambda.Bytes
import MemberAccess.Proofs.Lambda.Quotation

/-!
# What string constants denote

A string constant is a run of units between two quotes. Where it ends and what it denotes are found
one after the other: first the units are split off up to the closing quote, then the text between
the quotes is gone through again and its escapes are resolved. Both find the same units, so a
constant denotes the characters of its units, one for each, and is rejected as a whole if one of
them denotes none.

Characters stand for themselves, except for the quote and the backslash. Behind a backslash these do
as well, so each string has a constant.

## Main definitions

* `StringPiece.escapes`, `StringPiece.Denotes`: what a unit denotes.
* `StringPiece.constant`: the text of a constant.
* `StringPiece.guarded`: the text of a character in a constant that denotes it.

## Main results

* `StringPiece.resolve_units`: the text between the quotes is resolved unit by unit.
* `scanFrom_constant`, `scanFrom_constant_of_unknown`: a constant in a text.
* `string_constants_decode`: each string has a constant, and constants denote what their units do.
-/

namespace MemberAccess

namespace StringPiece

/-! ### What units denote -/

/-- **The escapes:** the characters that may stand behind a backslash, with those they denote. -/
def escapes : List (Char × Char) :=
  [('n', '\n'), ('t', '\t'), ('r', '\r'), ('0', '\x00'), ('\\', '\\'), ('"', '"'),
    ('\x27', '\x27')]

/-- **What a unit denotes:** a character that is no quote and no backslash stands for itself, and an
escape for its character. -/
inductive Denotes : StringPiece → Char → Prop
  | plain {c : Char} (hquote : c ≠ '"') (hslash : c ≠ '\\') : Denotes (plain c) c
  | escaped {c d : Char} (h : (c, d) ∈ escapes) : Denotes (escaped c) d

/-- The text of the constant of some units. -/
def constant (pieces : List StringPiece) : List Char :=
  '"' :: (pieces.flatMap text ++ ['"'])

/-- The text of a character in a constant that denotes it: quotes and backslashes stand behind a
backslash. -/
def guarded (c : Char) : List Char :=
  if c = '"' ∨ c = '\\' then ['\\', c] else [c]

/-- An escape is a unit that does not end a string, and has the value that it denotes. -/
theorem value?_of_mem_escapes {c d : Char} (h : (c, d) ∈ escapes) :
    (escaped c).IsInner ∧ (escaped c).value? = some d := by
  simp only [escapes, List.mem_cons, Prod.mk.injEq, List.not_mem_nil, or_false] at h
  rcases h with ⟨rfl, rfl⟩ | ⟨rfl, rfl⟩ | ⟨rfl, rfl⟩ | ⟨rfl, rfl⟩ | ⟨rfl, rfl⟩ | ⟨rfl, rfl⟩ |
    ⟨rfl, rfl⟩
  all_goals exact ⟨by simp [IsInner], rfl⟩

/-- Behind a backslash, a character of no escape has no value. -/
theorem value?_eq_none {c : Char} (h : ∀ d, (c, d) ∉ escapes) : (escaped c).value? = none := by
  have hne : ∀ {e d : Char}, (e, d) ∈ escapes → c ≠ e := fun hmem heq => h _ (heq ▸ hmem)
  rw [value?]
  · exact hne (e := 'n') (d := '\n') (by decide)
  · exact hne (e := 't') (d := '\t') (by decide)
  · exact hne (e := 'r') (d := '\r') (by decide)
  · exact hne (e := '0') (d := '\x00') (by decide)
  · exact hne (e := '\\') (d := '\\') (by decide)
  · exact hne (e := '"') (d := '"') (by decide)
  · exact hne (e := '\x27') (d := '\x27') (by decide)

/-- A piece that denotes a character does not end the string. -/
theorem Denotes.isInner {p : StringPiece} {c : Char} (h : p.Denotes c) : p.IsInner := by
  cases h with
  | plain hquote hslash => exact ⟨hquote, hslash⟩
  | escaped h => exact (value?_of_mem_escapes h).1

/-- A piece that denotes a character has it for its value. -/
theorem Denotes.value?_eq {p : StringPiece} {c : Char} (h : p.Denotes c) : p.value? = some c := by
  cases h with
  | plain _ _ => rfl
  | escaped h => exact (value?_of_mem_escapes h).2

/-! ### What runs of units denote -/

section

variable {pieces : List StringPiece} {cs : List Char}

/-- Pieces that denote a string do not end it. -/
theorem isInner_of_denote (h : List.Forall₂ Denotes pieces cs) : ∀ p ∈ pieces, p.IsInner := by
  induction h with
  | nil => exact fun p hp => absurd hp List.not_mem_nil
  | cons h _ ih => exact List.forall_mem_cons.2 ⟨h.isInner, ih⟩

/-- Units denote their characters one by one. -/
theorem denote?_of_denote (h : List.Forall₂ Denotes pieces cs) : denote? pieces = some cs := by
  induction h with
  | nil => rfl
  | cons h _ ih => rw [Bytes.denote?_cons, h.value?_eq, Option.bind_some, ih, Option.map_some]

/-- **One unknown escape is enough** for units to denote nothing. -/
theorem denote?_of_unknown (h : ∃ c, escaped c ∈ pieces ∧ ∀ d, (c, d) ∉ escapes) :
    denote? pieces = none := by
  obtain ⟨c, hc, hunknown⟩ := h
  obtain ⟨front, back, rfl⟩ := List.append_of_mem hc
  rw [denote?_append, Bytes.denote?_cons, value?_eq_none hunknown]
  cases denote? front <;> rfl

/-- **The text between the quotes is resolved unit by unit.** -/
theorem resolve_units (h : ∀ p ∈ pieces, p.IsInner) :
    Bytes.resolve (pieces.flatMap text) = denote? pieces := by
  have hsplit := Bytes.resolve_split (pieces.flatMap text ++ '"' :: [])
  rw [split_units h] at hsplit
  exact hsplit

/-- The escapes of a constant are resolved to what its pieces denote. -/
theorem unescape_constant (h : ∀ p ∈ pieces, p.IsInner) :
    Bytes.unescape (constant pieces) = .ok (denote? pieces) := by
  rw [constant, Bytes.unescape_quoted, resolve_units h]

end

/-- The units of a string in which quotes and backslashes are guarded. -/
theorem exists_units_guarded (cs : List Char) :
    ∃ pieces, List.Forall₂ Denotes pieces cs ∧ pieces.flatMap text = cs.flatMap guarded := by
  induction cs with
  | nil => exact ⟨[], .nil, rfl⟩
  | cons c cs ih =>
      obtain ⟨pieces, hdenote, htext⟩ := ih
      rw [List.flatMap_cons, guarded]
      by_cases hc : c = '"' ∨ c = '\\'
      · have hescape : (c, c) ∈ escapes := by rcases hc with rfl | rfl <;> decide
        refine ⟨.escaped c :: pieces, .cons (.escaped hescape) hdenote, ?_⟩
        rw [if_pos hc, List.flatMap_cons, htext, text]
      · obtain ⟨hquote, hslash⟩ := not_or.1 hc
        refine ⟨.plain c :: pieces, .cons (.plain hquote hslash) hdenote, ?_⟩
        rw [if_neg hc, List.flatMap_cons, htext, text]

end StringPiece

open StringPiece

/-! ### Constants in a text -/

section

variable {pieces : List StringPiece} {cs : List Char}

/-- A constant in front of a text is a quote, the pieces, a quote and the text. -/
theorem constant_append (pieces : List StringPiece) (more : List Char) :
    constant pieces ++ more = '"' :: ((pieces.flatMap text ++ ['"']) ++ more) := by
  rw [constant, List.cons_append]

/-- **A constant is the token of what its units denote,** whatever follows it. -/
theorem scanFrom_constant (h : List.Forall₂ Denotes pieces cs) (offset : Nat) (more : List Char) :
    scanFrom offset (constant pieces ++ more) =
      (scanFrom (offset + byteLength (constant pieces)) more).map
        (⟨.literal (.string (String.ofList cs)), offset,
          offset + byteLength (constant pieces)⟩ :: ·) := by
  have hfirst := Lexeme.first_units (isInner_of_denote h) more
  rw [denote?_of_denote h, Option.map_some, List.append_cons] at hfirst
  rw [constant_append]
  exact scanFrom_token (by decide) hfirst offset

/-- **A constant with an unknown escape is rejected as a whole,** whatever follows it. -/
theorem scanFrom_constant_of_unknown (hinner : ∀ p ∈ pieces, p.IsInner)
    (h : ∃ c, escaped c ∈ pieces ∧ ∀ d, (c, d) ∉ escapes) (offset : Nat) (more : List Char) :
    scanFrom offset (constant pieces ++ more) = .error ⟨offset, constant pieces⟩ := by
  have hfirst := Lexeme.first_units hinner more
  rw [denote?_of_unknown h, Option.map_none, List.append_cons] at hfirst
  rw [constant_append]
  exact scanFrom_unrecognized (by decide) hfirst offset

end

/-- **Each string has a constant, and constants denote what their units do.** A string between
quotes, with its quotes and backslashes behind a backslash, is the one token of that string,
whatever other characters it has. Anywhere in a text, units that each denote a character are between
quotes the token of these characters, and what is resolved between the quotes are these characters.
If one of the units is another escape, then nothing is resolved, and the constant is rejected from
its opening quote to its closing one. -/
theorem string_constants_decode :
    (∀ s : String, scan ('"' :: (s.toList.flatMap guarded ++ ['"'])) =
      .ok [⟨.literal (.string s), 0, byteLength ('"' :: (s.toList.flatMap guarded ++ ['"']))⟩]) ∧
    (∀ pieces cs, List.Forall₂ Denotes pieces cs →
      Bytes.unescape (constant pieces) = .ok (some cs) ∧
        ∀ offset more, scanFrom offset (constant pieces ++ more) =
          (scanFrom (offset + byteLength (constant pieces)) more).map
            (⟨.literal (.string (String.ofList cs)), offset,
              offset + byteLength (constant pieces)⟩ :: ·)) ∧
    ∀ pieces : List StringPiece, (∀ p ∈ pieces, p.IsInner) →
      (∃ c, escaped c ∈ pieces ∧ ∀ d, (c, d) ∉ escapes) →
        Bytes.unescape (constant pieces) = .ok none ∧
          ∀ offset more, scanFrom offset (constant pieces ++ more) =
            .error ⟨offset, constant pieces⟩ := by
  refine ⟨fun s => ?_, fun pieces cs h => ⟨?_, scanFrom_constant h⟩,
    fun pieces hinner h => ⟨?_, ?_⟩⟩
  · obtain ⟨pieces, hdenote, htext⟩ := exists_units_guarded s.toList
    have hscan := scanFrom_constant hdenote 0 []
    rw [List.append_nil, Nat.zero_add, constant, htext, String.ofList_toList] at hscan
    rw [scan, hscan, scanFrom]
    rfl
  · rw [unescape_constant (isInner_of_denote h), denote?_of_denote h]
  · rw [unescape_constant hinner, denote?_of_unknown h]
  · exact scanFrom_constant_of_unknown hinner h

/-- A backslash at the end of a string stands behind another one, the escapes of `"\t\""` are a tab
and a quote, and `"a\q"` is rejected as a whole. -/
theorem tab_and_quote_decode :
    scan ['"', 'a', '\\', '\\', '"'] = .ok [⟨.literal (.string "a\\"), 0, 5⟩] ∧
      (List.Forall₂ Denotes [.escaped 't', .escaped '"'] ['\t', '"'] ∧
        scanFrom 0 ['"', '\\', 't', '\\', '"', '"'] =
          .ok [⟨.literal (.string "\t\""), 0, 6⟩]) ∧
      ((∀ p ∈ [StringPiece.plain 'a', .escaped 'q'], p.IsInner) ∧
        (∃ c, escaped c ∈ [StringPiece.plain 'a', .escaped 'q'] ∧ ∀ d, (c, d) ∉ escapes) ∧
        scanFrom 0 ['"', 'a', '\\', 'q', '"'] = .error ⟨0, ['"', 'a', '\\', 'q', '"']⟩) := by
  obtain ⟨hstring, hconstant, hunknown⟩ := string_constants_decode
  have hdenote : List.Forall₂ Denotes [.escaped 't', .escaped '"'] ['\t', '"'] :=
    .cons (.escaped (by decide)) (.cons (.escaped (by decide)) .nil)
  have hscan := (hconstant _ _ hdenote).2 0 []
  have hend : ∀ offset, scanFrom offset [] = .ok [] := fun offset => by rw [scanFrom]
  rw [hend] at hscan
  have hinner : ∀ p ∈ [StringPiece.plain 'a', .escaped 'q'], p.IsInner := by
    simp [IsInner]
  have hq : ∃ c, escaped c ∈ [StringPiece.plain 'a', .escaped 'q'] ∧ ∀ d, (c, d) ∉ escapes :=
    ⟨'q', by simp, by simp [escapes]⟩
  exact ⟨hstring "a\\", ⟨hdenote, hscan⟩, hinner, hq, (hunknown _ hinner hq).2 0 []⟩

end MemberAccess
