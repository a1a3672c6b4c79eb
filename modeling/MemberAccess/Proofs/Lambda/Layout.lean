import Mathlib.Logic.Relation
import MemberAccess.Proofs.Lambda.Lookahead
import MemberAccess.Proofs.Lambda.Rejection

/-!
# The layout of a text

Splitting a text into tokens cuts it into pieces: the tokens cover characters that do not overlap,
all others are blanks, and the characters of a token are that token wherever they stand alone. The
blanks only keep the tokens apart. So they may be exchanged for others, and new ones may be put
between tokens, without a change to the tokens, to the lambda that is read, or to the fault and the
token that it is found at.

## Main definitions

* `Scanned`: a text at a place and its tokens, one character or one token at a time.
* `IsSlice`: the characters from a byte of a text to another.
* `Respace`: an exchange of blanks between the tokens of a text.

## Main results

* `Lexeme.inductionOn`: induction on the pieces of a text.
* `scanFrom_eq_ok_iff`: the tokens of a text are those that it is split into.
* `Respace.scan_alike`: an exchange of blanks leaves the tokens.
* `Lambda.layout_immaterial`: tokens cover a text up to blanks, and the blanks do not matter.
-/

namespace MemberAccess

/-! ### Bytes -/

/-- **The characters of a text from a byte to another,** where characters begin and end. -/
def IsSlice (cs : List Char) (start stop : Nat) (slice : List Char) : Prop :=
  ∃ before after, cs = before ++ slice ++ after ∧ start = byteLength before ∧
    stop = byteLength (before ++ slice)

/-- The length of a run of characters is that of its string. -/
theorem utf8ByteSize_ofList (cs : List Char) : (String.ofList cs).utf8ByteSize = byteLength cs := by
  induction cs with
  | nil => rfl
  | cons c cs ih =>
      rw [String.ofList_cons, String.utf8ByteSize_append, String.utf8ByteSize_singleton, ih,
        byteLength]

/-- The characters of a string are as long as the string. -/
theorem byteLength_toList (s : String) : byteLength s.toList = s.utf8ByteSize := by
  rw [← utf8ByteSize_ofList, String.ofList_toList]

/-- Of two texts in front of the same text, the shorter begins the longer. -/
theorem exists_append_of_byteLength_le {front front' back back' : List Char}
    (h : front ++ back = front' ++ back') (hle : byteLength front ≤ byteLength front') :
    ∃ between, front' = front ++ between ∧ back = between ++ back' := by
  rcases List.append_eq_append_iff.1 h with hlonger | ⟨between, hfront, hback⟩
  · exact hlonger
  · have hnone : between = [] := Decidable.by_contra fun hne => by
      have hpos := byteLength_pos hne
      rw [hfront, byteLength_append] at hle
      omega
    subst hnone
    exact ⟨[], by simpa using hfront.symm, by simpa using hback.symm⟩

/-- Characters begin at the byte behind those in front. -/
theorem isValid_byteLength {source : String} {before after : List Char}
    (h : source.toList = before ++ after) :
    (⟨byteLength before⟩ : String.Pos.Raw).IsValid source := by
  refine String.Pos.Raw.isValid_iff_exists_append.2
    ⟨String.ofList before, String.ofList after, ?_, ?_⟩
  · rw [← String.ofList_append, ← h, String.ofList_toList]
  · rw [← utf8ByteSize_ofList]
    rfl

/-- A blank is a single byte. -/
theorem utf8Size_of_isBlank {c : Char} (h : isBlank c = true) : c.utf8Size = 1 := by
  simp only [isBlank, Bool.or_eq_true, decide_eq_true_eq] at h
  rcases h with ((rfl | rfl) | rfl) | rfl <;> rfl

/-! ### Splitting, step by step -/

/-- **A text at a place and its tokens.** -/
inductive Scanned : Nat → List Char → List Placed → Prop
  | nil (offset : Nat) : Scanned offset [] []
  | blank {offset : Nat} {c : Char} {cs : List Char} {placed : List Placed}
      (hc : isBlank c = true) (h : Scanned (offset + c.utf8Size) cs placed) :
      Scanned offset (c :: cs) placed
  | piece {offset : Nat} {c : Char} {slice rest : List Char} {t : Token} {placed : List Placed}
      (hc : isBlank c = false)
      (hfirst : Lexeme.first c (slice ++ rest) = ⟨some t, c :: slice, rest⟩)
      (h : Scanned (offset + byteLength (c :: slice)) rest placed) :
      Scanned offset (c :: (slice ++ rest))
        (⟨t, offset, offset + byteLength (c :: slice)⟩ :: placed)

/-- The first piece of a text begins with its first character. -/
theorem Lexeme.exists_first (c : Char) (more : List Char) :
    ∃ token? slice rest, more = slice ++ rest ∧ first c more = ⟨token?, c :: slice, rest⟩ := by
  obtain ⟨hne, hsplit⟩ := splits_first c more
  obtain ⟨d, slice, hslice⟩ := List.exists_cons_of_ne_nil hne
  rw [hslice] at hsplit
  obtain ⟨rfl, hmore⟩ := List.cons.inj hsplit
  refine ⟨(first d more).token?, slice, (first d more).rest, hmore.symm, ?_⟩
  rw [← hslice]

/-- A blank is skipped, and counted. -/
theorem scanFrom_blank {c : Char} (hc : isBlank c = true) (offset : Nat) (cs : List Char) :
    scanFrom offset (c :: cs) = scanFrom (offset + c.utf8Size) cs := by
  rw [scanFrom, if_pos hc]

/-- A token is placed where it begins and ends, and the rest is scanned from its end. -/
theorem scanFrom_token {c : Char} (hc : isBlank c = false) {slice rest : List Char} {t : Token}
    (hfirst : Lexeme.first c (slice ++ rest) = ⟨some t, c :: slice, rest⟩) (offset : Nat) :
    scanFrom offset (c :: (slice ++ rest)) =
      (scanFrom (offset + byteLength (c :: slice)) rest).map
        (⟨t, offset, offset + byteLength (c :: slice)⟩ :: ·) := by
  rw [scanFrom]
  simp only [hc, hfirst, Bool.false_eq_true, if_false]

/-- A lexeme that is no token is reported where it begins. -/
theorem scanFrom_unrecognized {c : Char} (hc : isBlank c = false) {slice rest : List Char}
    (hfirst : Lexeme.first c (slice ++ rest) = ⟨none, c :: slice, rest⟩) (offset : Nat) :
    scanFrom offset (c :: (slice ++ rest)) = .error ⟨offset, c :: slice⟩ := by
  rw [scanFrom]
  simp only [hc, hfirst, Bool.false_eq_true, if_false]

/-- **Induction on the pieces of a text.** -/
@[elab_as_elim]
theorem Lexeme.inductionOn {motive : List Char → Prop} (cs : List Char) (nil : motive [])
    (blank : ∀ {c : Char} {cs : List Char}, isBlank c = true → motive cs → motive (c :: cs))
    (token : ∀ {c : Char} {slice rest : List Char} {t : Token}, isBlank c = false →
      first c (slice ++ rest) = ⟨some t, c :: slice, rest⟩ → motive rest →
      motive (c :: (slice ++ rest)))
    (unrecognized : ∀ {c : Char} {slice rest : List Char}, isBlank c = false →
      first c (slice ++ rest) = ⟨none, c :: slice, rest⟩ → motive (c :: (slice ++ rest))) :
    motive cs := by
  induction hn : cs.length using Nat.strongRecOn generalizing cs with
  | ind n ih =>
      subst hn
      cases cs with
      | nil => exact nil
      | cons c more =>
          by_cases hc : isBlank c = true
          · exact blank hc (ih _ (Nat.lt_succ_self _) more rfl)
          obtain ⟨token?, slice, rest, rfl, hfirst⟩ := exists_first c more
          have hc := Bool.eq_false_iff.2 hc
          cases token? with
          | none => exact unrecognized hc hfirst
          | some t =>
              have hshort : rest.length < (c :: (slice ++ rest)).length := by
                simp only [List.length_cons, List.length_append]
                omega
              exact token hc hfirst (ih _ hshort rest rfl)

/-- The tokens that are scanned have their slices at their places, with blanks between them. -/
theorem scanned_of_scanFrom {offset : Nat} {cs : List Char} {placed : List Placed}
    (h : scanFrom offset cs = .ok placed) : Scanned offset cs placed := by
  induction cs using Lexeme.inductionOn generalizing offset placed with
  | nil =>
      rw [scanFrom] at h
      cases h
      exact .nil offset
  | blank hc ih =>
      rw [scanFrom_blank hc] at h
      exact .blank hc (ih h)
  | @token c slice rest t hc hfirst ih =>
      rw [scanFrom_token hc hfirst] at h
      cases hlater : scanFrom (offset + byteLength (c :: slice)) rest with
      | error piece =>
          rw [hlater] at h
          cases h
      | ok later =>
          rw [hlater] at h
          cases h
          exact .piece hc hfirst (ih hlater)
  | unrecognized hc hfirst =>
      rw [scanFrom_unrecognized hc hfirst] at h
      cases h

/-- **The tokens of a text are those that it is split into.** -/
theorem scanFrom_eq_ok_iff {offset : Nat} {cs : List Char} {placed : List Placed} :
    scanFrom offset cs = .ok placed ↔ Scanned offset cs placed := by
  refine ⟨scanned_of_scanFrom, fun h => ?_⟩
  induction h with
  | nil offset => rw [scanFrom]
  | blank hc _ ih => rw [scanFrom_blank hc, ih]
  | piece hc hfirst _ ih => rw [scanFrom_token hc hfirst, ih, Except.map]

namespace Scanned

variable {offset : Nat} {cs : List Char} {placed : List Placed}

/-- The tokens of a text do not depend on its place. -/
theorem move (h : Scanned offset cs placed) (offset' : Nat) :
    ∃ placed', Scanned offset' cs placed' ∧
      placed'.map Placed.token = placed.map Placed.token := by
  induction h generalizing offset' with
  | nil => exact ⟨[], .nil offset', rfl⟩
  | blank hc _ ih =>
      obtain ⟨placed', h', htokens⟩ := ih (offset' + _)
      exact ⟨placed', .blank hc h', htokens⟩
  | piece hc hfirst _ ih =>
      obtain ⟨placed', h', htokens⟩ := ih (offset' + _)
      exact ⟨_, .piece hc hfirst h', by rw [List.map_cons, List.map_cons, htokens]⟩

/-- The characters of a token alone are that token. -/
theorem alone {c : Char} {slice rest : List Char} {t : Token} (hc : isBlank c = false)
    (hfirst : Lexeme.first c (slice ++ rest) = ⟨some t, c :: slice, rest⟩) :
    Scanned 0 (c :: slice) [⟨t, 0, byteLength (c :: slice)⟩] := by
  have hslice := Lexeme.first_of_mimics hfirst (.nil rest)
  have h : Scanned 0 (c :: (slice ++ [])) [⟨t, 0, 0 + byteLength (c :: slice)⟩] :=
    .piece hc hslice (.nil _)
  rwa [List.append_nil, Nat.zero_add] at h

/-- **A token covers characters of the text,** which are that token alone. -/
theorem exists_slice (h : Scanned offset cs placed) :
    ∀ p ∈ placed, ∃ before slice after, cs = before ++ slice ++ after ∧
      p.start = offset + byteLength before ∧ p.stop = offset + byteLength (before ++ slice) ∧
      Scanned 0 slice [⟨p.token, 0, byteLength slice⟩] := by
  induction h with
  | nil => exact fun p hp => absurd hp List.not_mem_nil
  | @blank offset c cs placed hc _ ih =>
      intro p hp
      obtain ⟨before, slice, after, rfl, hstart, hstop, halone⟩ := ih p hp
      refine ⟨c :: before, slice, after, rfl, ?_, ?_, halone⟩
      · rw [hstart, byteLength, Nat.add_assoc]
      · rw [hstop, List.cons_append, byteLength, Nat.add_assoc]
  | @piece offset c slice rest t placed hc hfirst _ ih =>
      intro p hp
      rcases List.mem_cons.1 hp with rfl | hp
      · exact ⟨[], c :: slice, rest, rfl, rfl, rfl, alone hc hfirst⟩
      · obtain ⟨before, slice', after, rfl, hstart, hstop, halone⟩ := ih p hp
        refine ⟨c :: slice ++ before, slice', after, by simp, ?_, ?_, halone⟩
        · rw [hstart, byteLength_append, Nat.add_assoc]
        · rw [hstop, List.append_assoc, byteLength_append (c :: slice), Nat.add_assoc]

/-- **All bytes that no token covers are blanks.** -/
theorem covered_or_blank (h : Scanned offset cs placed) {i : Nat} (hi : i < byteLength cs) :
    (∃ p ∈ placed, p.start ≤ offset + i ∧ offset + i < p.stop) ∨
      ∃ before c after, cs = before ++ c :: after ∧ i = byteLength before ∧ isBlank c = true := by
  induction h generalizing i with
  | nil => exact absurd hi (Nat.not_lt_zero i)
  | @blank offset c cs placed hc _ ih =>
      have hsize := utf8Size_of_isBlank hc
      cases i with
      | zero => exact .inr ⟨[], c, cs, rfl, rfl, hc⟩
      | succ i =>
          rw [byteLength, hsize, Nat.add_comm 1] at hi
          rcases ih (Nat.lt_of_succ_lt_succ hi) with ⟨p, hp, hstart, hstop⟩ |
            ⟨before, d, after, rfl, rfl, hd⟩
          · exact .inl ⟨p, hp, by omega, by omega⟩
          · exact .inr ⟨c :: before, d, after, rfl, by rw [byteLength, hsize, Nat.add_comm], hd⟩
  | @piece offset c slice rest t placed hc hfirst _ ih =>
      by_cases hin : i < byteLength (c :: slice)
      · exact .inl ⟨_, List.mem_cons_self, Nat.le_add_right _ _, Nat.add_lt_add_left hin _⟩
      · have hbytes : byteLength (c :: (slice ++ rest)) =
            byteLength (c :: slice) + byteLength rest := byteLength_append (c :: slice) rest
        have hrest : i - byteLength (c :: slice) < byteLength rest := by omega
        rcases ih hrest with ⟨p, hp, hstart, hstop⟩ | ⟨before, d, after, rfl, hbefore, hd⟩
        · exact .inl ⟨p, List.mem_cons_of_mem _ hp, by omega, by omega⟩
        · refine .inr ⟨c :: slice ++ before, d, after, by simp, ?_, hd⟩
          rw [byteLength_append]
          omega

/-! ### Blanks between tokens -/

/-- Blanks in front of a text are skipped. -/
theorem gap_iff {gap : List Char} (hgap : ∀ c ∈ gap, isBlank c = true) :
    Scanned offset (gap ++ cs) placed ↔ Scanned (offset + byteLength gap) cs placed := by
  induction gap generalizing offset with
  | nil => exact Iff.rfl
  | cons c gap ih =>
      obtain ⟨hc, hgap⟩ := List.forall_mem_cons.1 hgap
      rw [byteLength, ← Nat.add_assoc, ← ih hgap]
      refine ⟨fun h => ?_, .blank hc⟩
      rw [List.cons_append] at h
      generalize htext : c :: (gap ++ cs) = text at h
      cases h with
      | nil => cases htext
      | blank _ h =>
          obtain ⟨rfl, rfl⟩ := List.cons.inj htext
          exact h
      | piece hc' _ _ =>
          obtain ⟨rfl, -⟩ := List.cons.inj htext
          cases hc.symm.trans hc'

end Scanned

/-- A text goes on the same when blanks in it are exchanged for others, if there are still some
where there were some. -/
theorem mimics_respaced {gap gap' : List Char} (hgap' : ∀ c ∈ gap', isBlank c = true)
    (hsome : gap ≠ [] → gap' ≠ []) (front back : List Char) :
    Mimics (front ++ (gap ++ back)) (front ++ (gap' ++ back)) := by
  refine .append front ?_
  cases gap' with
  | nil =>
      obtain rfl : gap = [] := Decidable.by_contra fun h => hsome h rfl
      exact .refl back
  | cons c gap' =>
      refine .apart fun d hd => ?_
      obtain rfl := Option.some.inj hd
      exact hgap' _ List.mem_cons_self

/-- **An exchange of blanks leaves the tokens.** -/
theorem Scanned.respace {front gap gap' back : List Char} (hgap : ∀ c ∈ gap, isBlank c = true)
    (hgap' : ∀ c ∈ gap', isBlank c = true) (hsome : gap ≠ [] → gap' ≠ []) {offset : Nat}
    {placed : List Placed} (h : Scanned offset (front ++ (gap ++ back)) placed)
    (hbetween : ∀ p ∈ placed, p.stop ≤ offset + byteLength front ∨
      offset + byteLength (front ++ gap) ≤ p.start) :
    ∃ placed', Scanned offset (front ++ (gap' ++ back)) placed' ∧
      placed'.map Placed.token = placed.map Placed.token := by
  induction hn : front.length using Nat.strongRecOn generalizing offset front placed with
  | ind n ih =>
      cases front with
      | nil =>
          obtain ⟨placed', h', htokens⟩ := ((gap_iff hgap).1 h).move (offset + byteLength gap')
          exact ⟨placed', (gap_iff hgap').2 h', htokens⟩
      | cons c front =>
          subst hn
          rw [List.cons_append] at h
          generalize htext : c :: (front ++ (gap ++ back)) = text at h
          cases h with
          | nil => cases htext
          | blank hc h =>
              obtain ⟨rfl, rfl⟩ := List.cons.inj htext
              obtain ⟨placed', h', htokens⟩ := ih _ (Nat.lt_succ_self _) h
                (fun p hp => by
                  have := hbetween p hp
                  simp only [List.cons_append, byteLength] at this
                  omega) rfl
              exact ⟨placed', .blank hc h', htokens⟩
          | @piece _ _ slice rest t placed hc hfirst h =>
              obtain ⟨rfl, hrest⟩ := List.cons.inj htext
              have hends : byteLength slice ≤ byteLength front := by
                have hcovers := hbetween _ List.mem_cons_self
                have hsize := c.utf8Size_pos
                simp only [List.cons_append, byteLength] at hcovers
                omega
              obtain ⟨front, rfl, rfl⟩ := exists_append_of_byteLength_le hrest.symm hends
              have hshort : front.length < (c :: (slice ++ front)).length := by
                simp only [List.length_cons, List.length_append]
                omega
              obtain ⟨placed', h', htokens⟩ := ih front.length hshort h
                (fun p hp => by
                  have hp := hbetween p (List.mem_cons_of_mem _ hp)
                  simp only [List.cons_append, byteLength, byteLength_append] at hp ⊢
                  omega) rfl
              have hfirst' := Lexeme.first_of_mimics hfirst
                (mimics_respaced hgap' hsome front back)
              rw [List.cons_append, List.append_assoc]
              exact ⟨_, .piece hc hfirst' h', by rw [List.map_cons, List.map_cons, htokens]⟩

/-- **An exchange of blanks** in a text that is split into tokens. They stand between tokens or at
an end, perhaps beside others, and there may be none of them; if there are some, they are not
exchanged for none. -/
inductive Respace : List Char → List Char → Prop
  | mk {front gap gap' back : List Char} {placed : List Placed}
      (hscan : scan (front ++ gap ++ back) = .ok placed)
      (hbetween : ∀ p ∈ placed, p.stop ≤ byteLength front ∨ byteLength (front ++ gap) ≤ p.start)
      (hgap : ∀ c ∈ gap, isBlank c = true) (hgap' : ∀ c ∈ gap', isBlank c = true)
      (hsome : gap ≠ [] → gap' ≠ []) :
      Respace (front ++ gap ++ back) (front ++ gap' ++ back)

/-- **An exchange of blanks leaves the tokens.** -/
theorem Respace.scan_alike {cs cs' : List Char} (h : Respace cs cs') {placed : List Placed}
    (hscan : scan cs = .ok placed) :
    ∃ placed', scan cs' = .ok placed' ∧ placed'.map Placed.token = placed.map Placed.token := by
  obtain ⟨hscan', hbetween, hgap, hgap', hsome⟩ := h
  cases hscan'.symm.trans hscan
  rw [List.append_assoc] at hscan
  obtain ⟨placed', h, htokens⟩ := (scanned_of_scanFrom hscan).respace hgap hgap' hsome
    (by simpa only [Nat.zero_add] using hbetween)
  rw [List.append_assoc]
  exact ⟨placed', scanFrom_eq_ok_iff.2 h, htokens⟩

/-- So do many. -/
theorem scan_alike_of_respaces {cs cs' : List Char} (h : Relation.ReflTransGen Respace cs cs')
    {placed : List Placed} (hscan : scan cs = .ok placed) :
    ∃ placed', scan cs' = .ok placed' ∧ placed'.map Placed.token = placed.map Placed.token := by
  induction h with
  | refl => exact ⟨placed, hscan, rfl⟩
  | tail _ hrespace ih =>
      obtain ⟨placed', hscan', htokens'⟩ := ih
      obtain ⟨placed'', hscan'', htokens''⟩ := hrespace.scan_alike hscan'
      exact ⟨placed'', hscan'', htokens''.trans htokens'⟩

/-! ### Lambdas -/

namespace Lambda

/-- A fault is reported at the place of the first token that was not taken. -/
theorem offsetOf_eq_placeOf (placed : List Placed) (size count : Nat) :
    offsetOf placed size count = placeOf size (placed.drop (placed.length - count)) := by
  rw [offsetOf, placeOf]
  cases placed.drop (placed.length - count) <;> rfl

/-- **Texts of the same tokens are read alike.** If they are rejected, then it is with the same
fault, and at the same token or at the end of both. -/
theorem ofText_alike {source source' : String} {placed placed' : List Placed}
    (hscan : scan source.toList = .ok placed) (hscan' : scan source'.toList = .ok placed')
    (htokens : placed'.map Placed.token = placed.map Placed.token) :
    (∃ l, ofText source = .ok l ∧ ofText source' = .ok l) ∨
      ∃ fault i, i ≤ placed.length ∧
        ofText source = .error ⟨placeOf source.utf8ByteSize (placed.drop i), fault⟩ ∧
        ofText source' = .error ⟨placeOf source'.utf8ByteSize (placed'.drop i), fault⟩ := by
  have hlength : placed'.length = placed.length := by
    simpa only [List.length_map] using congrArg List.length htokens
  cases hread : ofTokens (placed.map Placed.token) with
  | ok l =>
      refine .inl ⟨l, ofText_eq_ok_iff.2 ⟨_, ?_, hread⟩, ofText_eq_ok_iff.2 ⟨_, ?_, hread⟩⟩
      · rw [hscan]
        rfl
      · rw [hscan', ← htokens]
        rfl
  | error r =>
      refine .inr ⟨r.fault, placed.length - r.rest.length, Nat.sub_le _ _,
        (ofText_eq_error_iff hscan).2 ⟨r, hread, ?_⟩,
        (ofText_eq_error_iff hscan').2 ⟨r, htokens ▸ hread, ?_⟩⟩
      · rw [offsetOf_eq_placeOf, byteLength_toList]
      · rw [offsetOf_eq_placeOf, byteLength_toList, hlength]

/-- **Tokens cover a text up to blanks, and the blanks do not matter.** The tokens of a text cover
some bytes each, from the beginning of a character to the end of one, and stand behind each other.
The characters of a token alone are that token, and every other byte of the text is a blank. Texts
that arise by exchanges of blanks between the tokens have the same tokens. They spell the same
lambda, or are rejected with the same fault at the same token, or at the end of both. -/
theorem layout_immaterial {source : String} {placed : List Placed}
    (hscan : scan source.toList = .ok placed) :
    (∀ p ∈ placed, p.start < p.stop ∧ p.stop ≤ source.utf8ByteSize ∧
        (⟨p.start⟩ : String.Pos.Raw).IsValid source ∧
        (⟨p.stop⟩ : String.Pos.Raw).IsValid source ∧
        ∃ slice, IsSlice source.toList p.start p.stop slice ∧
          scan slice = .ok [⟨p.token, 0, byteLength slice⟩]) ∧
      placed.Pairwise (fun p q => p.stop ≤ q.start) ∧
      (∀ i < source.utf8ByteSize, (∃ p ∈ placed, p.start ≤ i ∧ i < p.stop) ∨
        ∃ c, IsSlice source.toList i (i + 1) [c] ∧ isBlank c = true) ∧
      ∀ source' : String, Relation.ReflTransGen Respace source.toList source'.toList →
        ∃ placed', scan source'.toList = .ok placed' ∧
          placed'.map Placed.token = placed.map Placed.token ∧
          ((∃ l, ofText source = .ok l ∧ ofText source' = .ok l) ∨
            ∃ fault i, i ≤ placed.length ∧
              ofText source = .error ⟨placeOf source.utf8ByteSize (placed.drop i), fault⟩ ∧
              ofText source' =
                .error ⟨placeOf source'.utf8ByteSize (placed'.drop i), fault⟩) := by
  have hscanned := scanned_of_scanFrom hscan
  obtain ⟨hin, hapart⟩ := places_of_scanFrom hscan
  refine ⟨fun p hp => ?_, hapart, fun i hi => ?_, fun source' hrespaces => ?_⟩
  · obtain ⟨-, hcovers, hstop⟩ := hin p hp
    obtain ⟨before, slice, after, htext, hbefore, hbehind, halone⟩ := hscanned.exists_slice p hp
    rw [Nat.zero_add] at hstop hbefore hbehind
    refine ⟨hcovers, byteLength_toList source ▸ hstop, ?_, ?_, slice,
      ⟨before, after, htext, hbefore, hbehind⟩, scanFrom_eq_ok_iff.2 halone⟩
    · rw [hbefore]
      exact isValid_byteLength (htext.trans (List.append_assoc _ _ _))
    · rw [hbehind]
      exact isValid_byteLength htext
  · rcases hscanned.covered_or_blank (byteLength_toList source ▸ hi) with ⟨p, hp, hcovers⟩ |
      ⟨before, c, after, htext, rfl, hc⟩
    · exact .inl ⟨p, hp, by simpa only [Nat.zero_add] using hcovers⟩
    · refine .inr ⟨c, ⟨before, after, by rw [htext, List.append_assoc]; rfl, rfl, ?_⟩, hc⟩
      rw [byteLength_append, byteLength, utf8Size_of_isBlank hc]
      rfl
  · obtain ⟨placed', hscan', htokens⟩ := scan_alike_of_respaces hrespaces hscan
    exact ⟨placed', hscan', htokens, ofText_alike hscan hscan' htokens⟩

/-- A comparison is read alike with a blank behind the bar and other blanks before the mark. -/
theorem respaced_comparison :
    ∃ placed placed' l, scan "|é|é.a <1.5".toList = .ok placed ∧
      Relation.ReflTransGen Respace "|é|é.a <1.5".toList "|é| é.a\t\n<1.5".toList ∧
      scan "|é| é.a\t\n<1.5".toList = .ok placed' ∧
      placed'.map Placed.token = placed.map Placed.token ∧ placed' ≠ placed ∧
      ofText "|é|é.a <1.5" = .ok l ∧ ofText "|é| é.a\t\n<1.5" = .ok l := by
  have hscan : scan "|é|é.a <1.5".toList = .ok [⟨.symbol .pipe, 0, 1⟩, ⟨.ident "é", 1, 3⟩,
      ⟨.symbol .pipe, 3, 4⟩, ⟨.ident "é", 4, 6⟩, ⟨.symbol .dot, 6, 7⟩, ⟨.ident "a", 7, 8⟩,
      ⟨.symbol .less, 9, 10⟩,
      ⟨.literal (.float (Binary64.ofNumeral false ['1'] ['5'] 0)), 10, 13⟩] := by
    decide +kernel
  have hscan' : scan "|é| é.a <1.5".toList = .ok [⟨.symbol .pipe, 0, 1⟩, ⟨.ident "é", 1, 3⟩,
      ⟨.symbol .pipe, 3, 4⟩, ⟨.ident "é", 5, 7⟩, ⟨.symbol .dot, 7, 8⟩, ⟨.ident "a", 8, 9⟩,
      ⟨.symbol .less, 10, 11⟩,
      ⟨.literal (.float (Binary64.ofNumeral false ['1'] ['5'] 0)), 11, 14⟩] := by
    decide +kernel
  have hbar : Respace "|é|é.a <1.5".toList "|é| é.a <1.5".toList :=
    @Respace.mk ['|', 'é', '|'] [] [' '] ['é', '.', 'a', ' ', '<', '1', '.', '5'] _ hscan
      (by decide) (List.all_eq_true.1 rfl) (List.all_eq_true.1 rfl) (by decide)
  have hmark : Respace "|é| é.a <1.5".toList "|é| é.a\t\n<1.5".toList :=
    @Respace.mk ['|', 'é', '|', ' ', 'é', '.', 'a'] [' '] ['\t', '\n'] ['<', '1', '.', '5'] _ hscan'
      (by decide) (List.all_eq_true.1 rfl) (List.all_eq_true.1 rfl) (by decide)
  have hrespaces := (Relation.ReflTransGen.single hbar).tail hmark
  have hread : (ofText "|é|é.a <1.5").toOption.isSome = true := by decide +kernel
  obtain ⟨-, -, -, hlayout⟩ := layout_immaterial hscan
  obtain ⟨placed', hplaced', htokens, ⟨l, hl, hl'⟩ | ⟨fault, i, -, herror, -⟩⟩ :=
    hlayout _ hrespaces
  · refine ⟨_, placed', l, hscan, hrespaces, hplaced', htokens, ?_, hl, hl'⟩
    rintro rfl
    revert hplaced'
    decide +kernel
  · rw [herror] at hread
    cases hread

end Lambda

end MemberAccess
