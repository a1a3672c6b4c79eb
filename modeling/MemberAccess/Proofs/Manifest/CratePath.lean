import MemberAccess.Manifest.CratePath
import MemberAccess.Proofs.Derive.FieldPaths
import MemberAccess.Proofs.Source.Reading
import MemberAccess.Proofs.Source.Words

/-!
# Paths of identifiers

The path to a crate is put together as text and read back as code. Identifiers with `::` between
them are read as just these segments. A hyphen is a mark of its own, at which every path ends, so a
text that has one is no path as a whole.

## Main definitions

* `Source.CodeReader.EndsSegment`, `Source.CodeReader.EndsPath`: what may stand behind a segment,
  and behind a path.

## Main results

* `Source.CodeReader.path_absoluteTokens`: a path of identifiers is read.
* `CratePath.ofText?_of_identifiers`: it is the path that its text spells.
* `CratePath.ofText?_of_hyphen`: a text with a hyphen behind a word spells none.
-/

namespace MemberAccess.Source

open Text

/-! ### Reading segments -/

namespace CodeReader

variable {α : Type} {v : String} {rest : List TokenTree} {leftOver : Option Bracket}

/-- To look for one of some words takes nothing, and tells whether the next word is among them. -/
theorem anyM_seesWord_bind (words : List String) (f : Bool → CodeReader α) :
    (words.anyM seesWord >>= f) ⟨.word v :: rest, leftOver⟩ =
      f (words.contains v) ⟨.word v :: rest, leftOver⟩ := by
  induction words with
  | nil => rfl
  | cons w words ih =>
      rw [List.anyM, bind_assoc, seesWord_bind, List.contains_cons]
      by_cases hw : v = w
      · simp [hw]
      · have hbeq : (v == w) = false := beq_false_of_ne hw
        simp [hw, hbeq, ih]

/-- **Tokens that end a segment:** no arguments stand there, also behind `::`. -/
structure EndsSegment (rest : List TokenTree) : Prop where
  less : afterMarks? ['<'] rest = none
  further : afterMarks? [':', ':'] rest = none ∨ afterMarks? ['<'] (rest.drop 2) = none

/-- No arguments are seen where a segment ends. -/
theorem seesArguments_bind (hrest : EndsSegment rest) (f : Bool → CodeReader α) :
    (seesArguments false >>= f) ⟨rest, leftOver⟩ = f false ⟨rest, leftOver⟩ := by
  have hless : afterMarks? "<".toList rest = none := hrest.less
  have hfurther : ((afterMarks? "::".toList rest).isSome &&
      (afterMarks? ['<'] (rest.drop 2)).isSome) = false := by
    rcases hrest.further with h | h
    · have hcolons : afterMarks? "::".toList rest = none := h
      rw [hcolons]
      rfl
    · rw [h, Option.isSome_none, Bool.and_false]
  rw [seesArguments]
  simp only [bind_assoc, sees_bind, ahead_bind, hless]
  rw [hfurther]
  rfl

/-- **A word is read as a segment,** unless it is a keyword that is none. -/
theorem pathSegment_word (below : CodeLayer) (hrest : EndsSegment rest) :
    pathSegment false below ⟨.word v :: rest, leftOver⟩ =
      if v ∈ keywords ∧ v ∉ "Self" :: bareSegments then .error (.foundKeyword v)
      else .ok (⟨[.word v], true⟩, ⟨rest, leftOver⟩) := by
  have hread : ∀ (bare : Bool) (name : String), ((do
      let seen ← seesArguments false
      if (!bare && seen) = true then return ⟨.word name :: (← arguments below), false⟩
      return ⟨[.word name], true⟩ : CodeReader SegmentText)) ⟨rest, leftOver⟩ =
        .ok (⟨[.word name], true⟩, ⟨rest, leftOver⟩) := by
    intro bare name
    rw [seesArguments_bind hrest, Bool.and_false]
    rfl
  rw [pathSegment, anyM_seesWord_bind, seesWord_bind]
  by_cases hsegment : v ∈ "Self" :: bareSegments
  · have hcond : (bareSegments.contains v || decide (v = "Self")) = true := by
      simpa [or_comm] using hsegment
    dsimp only
    rw [if_pos hcond, if_neg fun h => h.2 hsegment]
    exact hread _ v
  · have hcond : ¬(bareSegments.contains v || decide (v = "Self")) = true := by
      simpa [or_comm] using hsegment
    dsimp only
    rw [if_neg hcond, identifier, bind_assoc, ahead_bind]
    dsimp only
    by_cases hkeyword : v ∈ keywords
    · rw [if_pos (List.contains_iff_mem.2 hkeyword), if_pos ⟨hkeyword, hsegment⟩]
      rfl
    · rw [if_neg fun h => hkeyword (List.contains_iff_mem.1 h), if_neg fun h => hkeyword h.1]
      exact hread _ v

/-- An identifier in front of the end of a segment is read as a segment. -/
theorem pathSegment_of_identifier (below : CodeLayer) (leftOver : Option Bracket)
    (hrest : EndsSegment rest) (hv : v ∉ keywords) :
    pathSegment false below ⟨.word v :: rest, leftOver⟩ =
      .ok (⟨[.word v], true⟩, ⟨rest, leftOver⟩) := by
  rw [pathSegment_word below hrest, if_neg fun h => hv h.1]

/-- Reads a further segment, if there is one. -/
def furtherSegment (below : CodeLayer) : CodeReader (Option SegmentText × Bool) := do
  let called := ((← ahead).drop 2).head?.any (·.isGroup .round)
  if !(← sees "::") || called then return (none, false)
  let _ ← mark "::"
  return (some (← pathSegment false below), true)

/-- Behind `::`, it is read as a further segment. -/
theorem furtherSegment_identifier (below : CodeLayer) (leftOver : Option Bracket)
    (hrest : EndsSegment rest) (hv : v ∉ keywords) :
    furtherSegment below ⟨symbol "::" ++ .word v :: rest, leftOver⟩ =
      .ok ((some ⟨[.word v], true⟩, true), ⟨rest, leftOver⟩) := by
  have hsegment := pathSegment_of_identifier below leftOver hrest hv
  have hbind : (pathSegment false below >>= fun s => (pure (some s, true) :
      CodeReader (Option SegmentText × Bool))) ⟨.word v :: rest, leftOver⟩ =
        .ok ((some ⟨[.word v], true⟩, true), ⟨rest, leftOver⟩) :=
    bind_eq_ok_iff.2 ⟨_, _, hsegment, rfl⟩
  exact hbind

/-- Without `::`, there is no further segment. -/
theorem furtherSegment_end (below : CodeLayer) (hcolons : afterMarks? [':', ':'] rest = none) :
    furtherSegment below ⟨rest, leftOver⟩ = .ok ((none, false), ⟨rest, leftOver⟩) := by
  have hsees : afterMarks? "::".toList rest = none := hcolons
  rw [furtherSegment, ahead_bind, sees_bind, hsees]
  rfl

/-- Tokens behind which no path goes on. -/
structure EndsPath (rest : List TokenTree) : Prop where
  less : afterMarks? ['<'] rest = none
  colons : afterMarks? [':', ':'] rest = none

/-- A further segment ends the one in front of it. -/
theorem EndsPath.endsSegment (h : EndsPath rest) (words : List String) :
    EndsSegment (absoluteTokens words ++ rest) := by
  cases words with
  | nil => exact ⟨h.less, .inl h.colons⟩
  | cons word words => exact ⟨rfl, .inr rfl⟩

/-- The further segments of an absolute path. -/
theorem repeated_furtherSegment {words : List String} (below : CodeLayer)
    (hwords : ∀ w ∈ words, w ∉ keywords) (hrest : EndsPath rest) :
    repeated (furtherSegment below) ⟨absoluteTokens words ++ rest, leftOver⟩ =
      .ok (words.map (fun w => some ⟨[.word w], true⟩) ++ [none], ⟨rest, leftOver⟩) := by
  induction words with
  | nil => exact repeated_last (furtherSegment_end below hrest.colons)
  | cons word words ih =>
      obtain ⟨hword, hwords⟩ := List.forall_mem_cons.1 hwords
      have hsegment := furtherSegment_identifier below leftOver (hrest.endsSegment words) hword
      have htokens : absoluteTokens (word :: words) ++ rest =
          symbol "::" ++ .word word :: (absoluteTokens words ++ rest) := by
        simp [absoluteTokens]
      rw [htokens]
      refine repeated_cons hsegment ?_ (ih hwords)
      simp only [List.length_append, List.length_cons]
      omega

/-- Identifiers behind `::` are read as the segments of a path, up to its end. -/
theorem pathSegments_absoluteTokens {words : List String} (below : CodeLayer)
    (hwords : ∀ w ∈ words, w ∉ keywords) (hrest : EndsPath rest) :
    pathSegments false below ⟨absoluteTokens words ++ rest, leftOver⟩ =
      .ok (words.map fun w => ⟨[.word w], true⟩, ⟨rest, leftOver⟩) := by
  have hsteps : pathSegments false below = repeated (furtherSegment below) >>= fun more =>
      pure (more.filterMap id) := rfl
  rw [hsteps, bind_eq_ok_iff]
  refine ⟨_, _, repeated_furtherSegment below hwords hrest, ?_⟩
  simp [pure_apply, List.filterMap_append]

/-! ### Reading paths -/

theorem markIf_colons (rest : List TokenTree) (leftOver : Option Bracket) :
    markIf "::" ⟨symbol "::" ++ rest, leftOver⟩ = .ok (symbol "::", ⟨rest, leftOver⟩) := rfl

/-- **An absolute path of identifiers is read,** up to where it does not go on. -/
theorem path_absoluteTokens {words : List String} (below : CodeLayer)
    (hwords : ∀ w ∈ v :: words, w ∉ keywords) (hrest : EndsPath rest) :
    path false below ⟨absoluteTokens (v :: words) ++ rest, leftOver⟩ =
      .ok (⟨true, (v :: words).map fun w => ⟨[.word w], true⟩⟩, ⟨rest, leftOver⟩) := by
  obtain ⟨hword, hwords⟩ := List.forall_mem_cons.1 hwords
  have hsegment := pathSegment_of_identifier below leftOver (hrest.endsSegment words) hword
  have htokens : absoluteTokens (v :: words) ++ rest =
      symbol "::" ++ .word v :: (absoluteTokens words ++ rest) := by
    simp [absoluteTokens]
  rw [htokens, path, bind_eq_ok_iff]
  exact ⟨_, _, markIf_colons _ _, bind_eq_ok_iff.2 ⟨_, _, hsegment, bind_eq_ok_iff.2
    ⟨_, _, pathSegments_absoluteTokens below hwords hrest, rfl⟩⟩⟩

/-- **An absolute path of one word,** which may be a keyword, ends where it does not go on. -/
theorem path_word_ends (below : CodeLayer) (hrest : EndsPath rest) {p : PathText} {c : Cursor}
    (h : path false below ⟨absoluteTokens [v] ++ rest, leftOver⟩ = .ok (p, c)) : c.rest = rest := by
  have hends : EndsSegment rest := hrest.endsSegment []
  have htokens : absoluteTokens [v] ++ rest = symbol "::" ++ .word v :: rest := by
    simp [absoluteTokens]
  rw [htokens, path, bind_eq_ok_iff] at h
  obtain ⟨_, _, hmark, h⟩ := h
  obtain ⟨rfl, rfl⟩ := Prod.mk.inj (Except.ok.inj ((markIf_colons _ _).symm.trans hmark))
  obtain ⟨_, _, hsegment, h⟩ := bind_eq_ok_iff.1 h
  rw [pathSegment_word below hends] at hsegment
  -- A keyword that is no segment is not read at all.
  split at hsegment
  · cases hsegment
  · obtain ⟨rfl, rfl⟩ := Prod.mk.inj (Except.ok.inj hsegment)
    obtain ⟨_, _, hfurther, h⟩ := bind_eq_ok_iff.1 h
    have hnone : pathSegments false below ⟨absoluteTokens [] ++ rest, leftOver⟩ =
        .ok ([], ⟨rest, leftOver⟩) :=
      pathSegments_absoluteTokens below (fun w hw => absurd hw List.not_mem_nil) hrest
    obtain ⟨rfl, rfl⟩ := Prod.mk.inj (Except.ok.inj (hnone.symm.trans hfurther))
    obtain ⟨-, rfl⟩ := Prod.mk.inj (Except.ok.inj h)
    rfl

end CodeReader

end MemberAccess.Source

namespace MemberAccess

open Source Text

/-! ### Identifiers -/

/-- A name in code is a word, and no keyword. -/
theorem IsFieldName.isWordText {name : String} (h : IsFieldName name) :
    IsWordText name.toList ∧ name ∉ keywords := by
  cases h with
  | bare hword hname => exact ⟨.bare hword, hname⟩
  | @raw name hword hname =>
      have hchars : ("r#" ++ name).toList = 'r' :: '#' :: name.toList := String.toList_append
      have hmarks : ∀ word ∈ keywords, '#' ∉ word.toList := by decide
      refine ⟨hchars ▸ .raw hword (String.ofList_toList ▸ hname), fun hmem => ?_⟩
      refine hmarks _ hmem ?_
      rw [hchars]
      exact List.mem_cons_of_mem _ List.mem_cons_self

namespace CratePath

/-- Segments with `::` between them and in front are an absolute path. -/
theorem toList_absolute (word : String) (words : List String) :
    ("::" ++ "::".intercalate (word :: words)).toList = absoluteText (word :: words) := by
  induction words generalizing word with
  | nil => simp [absoluteText, String.intercalate_singleton]
  | cons next words ih =>
      have hnext := ih next
      rw [String.toList_append] at hnext
      rw [String.intercalate_cons_cons, String.append_assoc, String.toList_append,
        String.toList_append, String.toList_append, hnext]
      simp [absoluteText]

/-- **Identifiers are the segments of the path** that they spell. -/
theorem ofText?_of_identifiers {words : List String} (hne : words ≠ [])
    (hwords : ∀ w ∈ words, IsFieldName w) :
    ofText? ("::".intercalate words) = some ⟨words⟩ := by
  obtain ⟨word, words, rfl⟩ := List.exists_cons_of_ne_nil hne
  have htokens := tokens?_absoluteText (fun w hw => (hwords w hw).isWordText.1)
    (toList_absolute word words)
  have hread : CodeReader.path false (CodeLayer.ofDepth (size (absoluteTokens (word :: words))))
      ⟨absoluteTokens (word :: words) ++ [], none⟩ =
        .ok (⟨true, (word :: words).map fun w => ⟨[.word w], true⟩⟩, ⟨[], none⟩) :=
    CodeReader.path_absoluteTokens _ (fun w hw => (hwords w hw).isWordText.2) ⟨rfl, rfl⟩
  rw [List.append_nil] at hread
  rw [ofText?, htokens, Option.bind_some, ofTokens?, hread]
  simp [Source.render, TokenTree.text, Function.comp_def]

/-- **A text with a hyphen behind a word is no path.** -/
theorem ofText?_of_hyphen {text : String} {cs more : List Char}
    (htext : text.toList = cs ++ '-' :: more) (hcs : IsWord cs) (hquote : '"' ∉ more)
    (htick : '\x27' ∉ more) : ofText? text = none := by
  have habsolute : ("::" ++ text).toList = absoluteText [String.ofList cs] ++ '-' :: more := by
    simp [absoluteText, String.toList_append, htext]
  have hword : ∀ w ∈ [String.ofList cs], IsWordText w.toList :=
    List.forall_mem_singleton.2 (String.toList_ofList ▸ .bare hcs)
  cases htokens : tokens? ("::" ++ text) with
  | none => rw [ofText?, htokens, Option.bind_none]
  | some ts =>
      obtain ⟨joined, rest, rfl⟩ := tokens?_hyphen hword hquote htick habsolute htokens
      rw [ofText?, htokens, Option.bind_some, ofTokens?]
      split
      · rfl
      · rename_i hread
        rw [CodeReader.path_word_ends _ ⟨rfl, rfl⟩ hread]
        simp

end CratePath

end MemberAccess
