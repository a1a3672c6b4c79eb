import MemberAccess.Lambda.Parse
import MemberAccess.Proofs.Lambda.Layout

/-!
# Splitting a text by its bytes

A machine with more words than the text has bytes splits it as it is split without words. No sum of
offsets is too large for it, and it only cuts between characters: the text between the quotes of a
string, and the first piece that is no token.

## Main results

* `Bytes.slice_append`: a cut between characters.
* `Bytes.unescape_quoted`: the string between quotes.
* `Bytes.token?_eq`: the token of a piece.
* `Bytes.scanFrom_eq`: the tokens of a text, or the place of the first piece that is none.
* `Unrecognized.exists_slice`: where that piece is, and what is before it.
-/

namespace MemberAccess

namespace Bytes

/-! ### Words -/

/-- A sum that fits in a word is exact. -/
theorem add_of_lt {capacity m n : Nat} (h : m + n < capacity) : add capacity m n = .ok (m + n) :=
  if_pos h

/-- A difference is exact unless it would be negative. -/
theorem sub_of_le {m n : Nat} (h : n ≤ m) : sub m n = .ok (m - n) :=
  if_pos h

/-! ### Cuts -/

/-- A text is cut behind any of its beginnings. -/
theorem split_append (front back : List Char) :
    split (byteLength front) (front ++ back) = .ok (front, back) := by
  induction front with
  | nil => cases back <;> rfl
  | cons c front ih =>
      have hpos : c.utf8Size + byteLength front ≠ 0 :=
        Nat.ne_of_gt (byteLength_pos (List.cons_ne_nil c front))
      rw [List.cons_append, split, byteLength, if_neg hpos, if_pos (Nat.le_add_right _ _),
        Nat.add_sub_cancel_left, ih]
      rfl

/-- **A cut between characters.** -/
theorem slice_append (front piece back : List Char) :
    slice (front ++ piece ++ back) ⟨byteLength front, byteLength (front ++ piece)⟩ =
      .ok piece := by
  have hsize : sub (byteLength (front ++ piece)) (byteLength front) = .ok (byteLength piece) := by
    rw [byteLength_append, sub_of_le (Nat.le_add_right _ _), Nat.add_sub_cancel_left]
  rw [slice, hsize, List.append_assoc]
  simp only [Except.mapError, bind, Except.bind, split_append, pure, Except.pure]

example : slice ['x', 'é'] ⟨1, 2⟩ = .error .cut := rfl

/-! ### Strings -/

/-- The pieces of a string denote its characters one by one, and nothing if one of them does. -/
theorem denote?_cons (p : StringPiece) (pieces : List StringPiece) :
    StringPiece.denote? (p :: pieces) =
      p.value?.bind fun d => (StringPiece.denote? pieces).map (d :: ·) := by
  rw [StringPiece.denote?, StringPiece.denote?, List.mapM_cons]
  cases p.value? with
  | none => rfl
  | some d => cases List.mapM StringPiece.value? pieces <;> rfl

/-- The units of a string are resolved one by one. -/
theorem resolve_split (more : List Char) :
    resolve ((StringPiece.split more).1.flatMap StringPiece.text) =
      StringPiece.denote? (StringPiece.split more).1 := by
  induction more using StringPiece.split.induct with
  | case1 => rfl
  | case2 => rfl
  | case3 c more hc ih =>
      rw [StringPiece.split, if_neg hc, denote?_cons, ← ih, List.flatMap_cons, StringPiece.text,
        List.cons_append, List.cons_append, List.nil_append, resolve]
      cases (StringPiece.escaped c).value? <;> rfl
  | case4 c more hc hend =>
      rw [StringPiece.split, if_pos hend]
      · rfl
      · exact hc
  | case5 c more hc hplain ih =>
      rw [StringPiece.split, if_neg hplain]
      · have hslash : c ≠ '\\' := fun h => hplain (.inr h)
        rw [denote?_cons, ← ih, List.flatMap_cons, StringPiece.text, List.cons_append,
          List.nil_append, resolve, if_neg hslash]
        · rfl
        · exact fun d rest h _ => hslash h
      · exact hc

/-- What stands between quotes is cut out, and its escapes are resolved. -/
theorem unescape_quoted (inner : List Char) :
    unescape ('"' :: (inner ++ ['"'])) = .ok (resolve inner) := by
  have hlength : byteLength ('"' :: (inner ++ ['"'])) = byteLength ('"' :: inner) + 1 :=
    byteLength_append ('"' :: inner) ['"']
  have hslice : slice ('"' :: (inner ++ ['"'])) ⟨1, byteLength ('"' :: inner)⟩ = .ok inner :=
    slice_append ['"'] inner ['"']
  rw [unescape, hlength, sub_of_le (Nat.le_add_left _ _), Nat.add_sub_cancel]
  simp only [bind, Except.bind, hslice, pure, Except.pure]

/-- **The tokens of the machine** are those of the text, without a crash. -/
theorem token?_eq (c : Char) (more : List Char) :
    token? c more = .ok (Lexeme.first c more).token? := by
  rw [token?]
  split
  · rename_i hclosed
    obtain ⟨rfl, hquote⟩ := hclosed
    obtain ⟨rest, hrest⟩ := List.head?_eq_some_iff.1 hquote
    have hfirst : Lexeme.first '"' more =
        ⟨(StringPiece.denote? (StringPiece.split more).1).map fun s =>
            .literal (.string (String.ofList s)),
          '"' :: ((StringPiece.split more).1.flatMap StringPiece.text ++ ['"']), rest⟩ := by
      rw [Lexeme.first.eq_def, if_neg (by decide), if_neg (by decide), if_pos rfl, Lexeme.ofString,
        hrest]
      rfl
    rw [hfirst]
    simp only [bind, Except.bind, unescape_quoted, resolve_split, pure, Except.pure]
  · rfl

/-! ### Tokens -/

/-- **The machine splits a text as it is split,** if there are enough words for its bytes. -/
theorem scanFrom_eq {capacity offset : Nat} {cs : List Char}
    (h : offset + byteLength cs < capacity) :
    scanFrom capacity offset cs =
      .ok ((MemberAccess.scanFrom offset cs).mapError fun piece =>
        ⟨piece.offset, piece.offset + byteLength piece.slice⟩) := by
  induction cs using Lexeme.inductionOn generalizing offset with
  | nil =>
      rw [scanFrom, MemberAccess.scanFrom]
      rfl
  | @blank c cs hc ih =>
      rw [byteLength] at h
      rw [scanFrom_blank hc, scanFrom, if_pos hc, add_of_lt (by omega)]
      exact ih (by omega)
  | @token c slice rest t hc hfirst ih =>
      rw [← List.cons_append, byteLength_append] at h
      have hstop : add capacity offset (byteLength (c :: slice)) =
          .ok (offset + byteLength (c :: slice)) := add_of_lt (by omega)
      have hlater := @ih (offset + byteLength (c :: slice)) (by omega)
      rw [scanFrom_token hc hfirst, scanFrom, if_neg (by simp [hc])]
      simp only [token?_eq, hfirst, hstop, hlater, bind, Except.bind, pure, Except.pure]
      cases MemberAccess.scanFrom (offset + byteLength (c :: slice)) rest <;> rfl
  | @unrecognized c slice rest hc hfirst =>
      rw [← List.cons_append, byteLength_append] at h
      have hstop : add capacity offset (byteLength (c :: slice)) =
          .ok (offset + byteLength (c :: slice)) := add_of_lt (by omega)
      rw [scanFrom_unrecognized hc hfirst, scanFrom, if_neg (by simp [hc])]
      simp only [token?_eq, hfirst, hstop, bind, Except.bind]
      rfl

end Bytes

/-! ### The first piece that is no token -/

/-- **The first piece of a text that is no token** stands behind text that is split into tokens. No
blank begins it, and what begins with it does not begin with a token. -/
theorem Unrecognized.exists_slice {offset : Nat} {cs : List Char} {piece : Unrecognized}
    (h : scanFrom offset cs = .error piece) :
    ∃ front c slice back placed, cs = front ++ c :: (slice ++ back) ∧ piece.slice = c :: slice ∧
      piece.offset = offset + byteLength front ∧ Scanned offset front placed ∧
      isBlank c = false ∧ Lexeme.first c (slice ++ back) = ⟨none, c :: slice, back⟩ := by
  induction cs using Lexeme.inductionOn generalizing offset with
  | nil =>
      rw [scanFrom] at h
      cases h
  | @blank c cs hc ih =>
      rw [scanFrom_blank hc] at h
      obtain ⟨front, d, slice, back, placed, rfl, hslice, hoffset, hscanned, hpiece⟩ := ih h
      refine ⟨c :: front, d, slice, back, placed, rfl, hslice, ?_, .blank hc hscanned, hpiece⟩
      rw [hoffset, byteLength, Nat.add_assoc]
  | @token c slice rest t hc hfirst ih =>
      rw [scanFrom_token hc hfirst] at h
      cases hlater : scanFrom (offset + byteLength (c :: slice)) rest with
      | ok later =>
          rw [hlater] at h
          cases h
      | error piece' =>
          rw [hlater] at h
          cases h
          obtain ⟨front, d, slice', back, placed, rfl, hslice, hoffset, hscanned, hpiece⟩ :=
            ih hlater
          -- The token is the same in front of what is before the piece.
          have hmimics := Mimics.append front (.nil (d :: (slice' ++ back)))
          rw [List.append_nil] at hmimics
          refine ⟨c :: (slice ++ front), d, slice', back, _, by simp, hslice, ?_,
            .piece hc (Lexeme.first_of_mimics hfirst hmimics) hscanned, hpiece⟩
          rw [hoffset, ← List.cons_append, byteLength_append, Nat.add_assoc]
  | @unrecognized c slice rest hc hfirst =>
      rw [scanFrom_unrecognized hc hfirst] at h
      cases h
      exact ⟨[], c, slice, rest, [], rfl, rfl, rfl, .nil offset, hc, hfirst⟩

end MemberAccess
