import MemberAccess.Proofs.Lambda.PromptReaders
import MemberAccess.Proofs.Lambda.Reprint

/-!
# Where a text is rejected

A rejected text is wrong at the token that the error points at, and not before. The tokens in front
of that token are the beginning of some lambda, and no lambda begins with them and that token: every
text that does is rejected at the token, with the same fault. Where the end of the text is
reported, the whole text is the beginning of some lambda.

There are two exceptions. Nothing is said of what is nested too deeply. And a head is told by two
tokens, so a name without an arrow behind it is reported in place of what follows it.

## Main definitions

* `NameAlone`: tokens that begin with a name without an arrow.
* `Lambda.placeOf`: the first byte of the first of some tokens, or the end of the text.

## Main results

* `Lambda.first_wrong_token`: the tokens before a rejected one, and what begins with both.
* `Lambda.ofText_error_at_first_wrong_token`: the same for texts and offsets.
-/

namespace MemberAccess

open Reading (plain)

/-! ### Heads -/

/-- Tokens that begin with a name which no arrow follows. -/
def NameAlone (ts : List Token) : Prop :=
  ∃ name rest, ts = .ident name :: rest ∧ rest.head? ≠ some (.symbol .arrow)

/-- A name without an arrow is no head. -/
theorem NameAlone.head_eq {ts : List Token} (h : NameAlone ts) :
    plain (Reader.head ts) = .error (.expected .lambda ts) := by
  obtain ⟨name, rest, rfl, harrow⟩ := h
  cases rest with
  | nil => rfl
  | cons t rest =>
      cases t with
      | symbol s => cases s <;> first | rfl | exact absurd rfl harrow
      | keywordAs => rfl
      | literal l => rfl
      | ident other => rfl

/-- The parameter of a head between bars. -/
theorem Reader.plain_head_pipe (rest : List Token) :
    plain (head (.symbol .pipe :: rest)) = plain (closed (ident .paramName) .pipe rest) := by
  rw [head, Reading.plain_map_widen]

/-- **Heads are read promptly,** unless they begin with a name without an arrow. -/
theorem Reader.prompt_head {ts : List Token} (hts : ¬NameAlone ts) :
    Prompt (fun _ => True) (fun ts => plain (head ts)) ts := by
  have hreject : (∀ us, us.head? = ts.head? →
      plain (head us) = .error (.expected .lambda us)) →
      Prompt (fun _ => True) (fun ts => plain (head ts)) ts := by
    intro h
    refine .reject (.expected .lambda ts.head?) (fun us hus => ?_) fun _ =>
      ⟨[.symbol .pipe, .ident "x", .symbol .pipe], "x", rfl, fun us _ => plain_head_bars "x" us⟩
    rw [h us hus, Rejection.expected, hus]
  cases ts with
  | nil =>
      refine hreject fun us hus => ?_
      rw [List.head?_eq_none_iff.1 hus]
      rfl
  | cons t rest =>
      cases t with
      | ident name =>
          have harrow : rest.head? = some (.symbol .arrow) :=
            Decidable.by_contra fun h => hts ⟨name, rest, rfl, h⟩
          obtain ⟨rest, rfl⟩ := List.head?_eq_some_iff.1 harrow
          exact .done [.ident name, .symbol .arrow] name fun _ => rfl
      | symbol s =>
          by_cases hs : s = .pipe
          · subst hs
            refine .behind [.symbol .pipe] plain_head_pipe ?_
            exact prompt_closed .pipe rfl (prompt_ident _ .paramName rest)
          · refine hreject fun us hus => ?_
            obtain ⟨more, rfl⟩ := List.head?_eq_some_iff.1 hus
            cases s <;> first | rfl | exact absurd rfl hs
      | keywordAs =>
          refine hreject fun us hus => ?_
          obtain ⟨more, rfl⟩ := List.head?_eq_some_iff.1 hus
          rfl
      | literal l =>
          refine hreject fun us hus => ?_
          obtain ⟨more, rfl⟩ := List.head?_eq_some_iff.1 hus
          rfl

/-! ### Bodies -/

namespace Lambda

/-- A lambda, behind which no token may stand. -/
def ended (l : Lambda) : List Token → Except Rejection (Lambda × List Token)
  | [] => .ok (l, [])
  | t :: rest => .error ⟨t :: rest, .trailing t⟩

/-- A body, behind which no token may stand. -/
def wholeBody (param : String) (ts : List Token) : Except Rejection (Lambda × List Token) :=
  (plain (bodyReader param ts)).bind fun body => ended ⟨param, body.1⟩ body.2

/-- A constant is a body. -/
theorem wholeBody_constant (param : String) :
    wholeBody param [.literal (.bool true)] = .ok (⟨param, .constant (.bool true)⟩, []) := by
  have hatom : Derives param .atom 0 [.literal (.bool true)] (.constant (.bool true)) [] :=
    .constant
  have hbody := (Derives.loosen (j := 1) (.ofPrefixed (.ofApplied (.ofAtom hatom))) (by decide)
    ).reads_body nestingLimit
  rw [wholeBody, bodyReader, hbody.fits (by decide)]
  rfl

/-- The end of a lambda is seen promptly: anything that follows is rejected. -/
theorem prompt_ended (l : Lambda) (ts : List Token) : Prompt (· = []) (ended l) ts := by
  cases ts with
  | nil =>
      refine .stop l fun more hmore => ?_
      obtain rfl : more = [] := hmore.elim List.head?_eq_none_iff.1 id
      rfl
  | cons t rest =>
      refine .reject (.trailing t) (fun more hmore => ?_) fun _ =>
        ⟨[], l, rfl, fun more hmore => by rw [hmore]; rfl⟩
      obtain ⟨more, rfl⟩ := List.head?_eq_some_iff.1 hmore
      rfl

/-- Bodies up to the end are read promptly. -/
theorem prompt_wholeBody (param : String) (ts : List Token) :
    Prompt (· = []) (wholeBody param) ts := by
  have hbody := (Layer.isPrompt_ofRoom param nestingLimit).expr 0 ts (Nat.zero_le _)
  exact hbody.bind_loop (fun body => ended ⟨param, body⟩) (fun body rest _ => prompt_ended _ rest)
    (fun more hmore => by rw [hmore]; rfl) fun body => ⟨_, fun more hmore => by rw [hmore]; rfl⟩

/-! ### Lambdas -/

/-- A lambda and the tokens behind it, of which there are none. -/
def whole (ts : List Token) : Except Rejection (Lambda × List Token) :=
  (plain (Reader.head ts)).bind fun head => wholeBody head.1 head.2

/-- A lambda is read from all tokens. -/
theorem ofTokens_eq_whole (ts : List Token) : ofTokens ts = (whole ts).map Prod.fst := by
  rw [ofTokens_eq, whole]
  cases plain (Reader.head ts) with
  | error e => rfl
  | ok head =>
      simp only [Except.bind, wholeBody]
      cases plain (bodyReader head.1 head.2) with
      | error e => rfl
      | ok body =>
          obtain ⟨e, rest⟩ := body
          cases rest <;> rfl

/-- Lambdas up to the end are read promptly, unless the tokens are a name alone. -/
theorem prompt_whole {ts : List Token} (hts : ¬NameAlone ts) : Prompt (· = []) whole ts := by
  refine (Reader.prompt_head hts).bind wholeBody (fun param rest _ => prompt_wholeBody param rest)
    (fun _ _ _ _ _ => trivial) fun param => ?_
  refine ⟨[.literal (.bool true)], ⟨param, .constant (.bool true)⟩, rfl, fun more hmore => ?_⟩
  subst hmore
  exact ⟨trivial, wholeBody_constant param⟩

/-- **A rejection points at the first wrong token,** unless levels are nested too deeply or a name
stands alone. The tokens before it are the beginning of a lambda, and all that begins with them and
the token is rejected there, with the same fault. -/
theorem first_wrong_token {ts : List Token} {e : Rejection} (h : ofTokens ts = .error e)
    (hdeep : e.fault ≠ .tooDeep) (hname : ¬NameAlone ts) :
    ∃ used, ts = used ++ e.rest ∧
      (∃ more l, more.all Token.isFiller = true ∧ ofTokens (used ++ more) = .ok l) ∧
      ∀ t rest, e.rest = t :: rest → ∀ more,
        ofTokens (used ++ t :: more) = .error ⟨t :: more, e.fault⟩ := by
  rw [ofTokens_eq_whole] at h
  cases prompt_whole hname with
  | reads used rest l hts hread =>
      rw [hts, hread rest (.inl rfl)] at h
      cases h
  | rejects used rest fault hts hreject hmend =>
      rw [hts, hreject rest rfl] at h
      obtain rfl := Except.error.inj h
      obtain ⟨patch, l, hfills, hpatch⟩ := hmend hdeep
      refine ⟨used, hts, ⟨patch, l, hfills, ?_⟩, fun t after hrest more => ?_⟩
      · have hread := hpatch [] rfl
        rw [List.append_nil] at hread
        rw [ofTokens_eq_whole, hread]
        rfl
      · obtain rfl : rest = t :: after := hrest
        rw [ofTokens_eq_whole, hreject (t :: more) rfl]
        rfl

/-- A name that stands alone is rejected itself. -/
theorem ofTokens_of_nameAlone {ts : List Token} (h : NameAlone ts) :
    ofTokens ts = .error (.expected .lambda ts) := by
  rw [ofTokens_eq, h.head_eq]
  rfl

end Lambda

/-! ### Places in a text -/

/-- Texts after one another are as long as both. -/
theorem byteLength_append (cs ds : List Char) :
    byteLength (cs ++ ds) = byteLength cs + byteLength ds := by
  induction cs with
  | nil => exact (Nat.zero_add _).symm
  | cons c cs ih => rw [List.cons_append, byteLength, byteLength, ih, Nat.add_assoc]

/-- A character takes at least a byte. -/
theorem byteLength_pos {cs : List Char} (h : cs ≠ []) : 0 < byteLength cs := by
  cases cs with
  | nil => exact absurd rfl h
  | cons c cs => exact Nat.add_pos_left c.utf8Size_pos _

/-- **The tokens of a text** stand behind each other, and each of them covers some bytes. -/
theorem places_of_scanFrom {offset : Nat} {cs : List Char} {placed : List Placed}
    (h : scanFrom offset cs = .ok placed) :
    (∀ p ∈ placed, offset ≤ p.start ∧ p.start < p.stop ∧ p.stop ≤ offset + byteLength cs) ∧
      placed.Pairwise fun a b => a.stop ≤ b.start := by
  induction hn : cs.length using Nat.strongRecOn generalizing offset cs placed with
  | ind n ih =>
      rw [scanFrom.eq_def] at h
      split at h
      · cases h
        exact ⟨fun _ hp => absurd hp List.not_mem_nil, .nil⟩
      rename_i c more
      rw [List.length_cons] at hn
      split at h
      · obtain ⟨hin, hapart⟩ := ih more.length (by omega) h rfl
        refine ⟨fun p hp => ?_, hapart⟩
        obtain ⟨hstart, hcovers, hstop⟩ := hin p hp
        rw [byteLength]
        exact ⟨by omega, hcovers, by omega⟩
      · obtain ⟨hne, hsplit⟩ := Lexeme.splits_first c more
        have hpos := byteLength_pos hne
        have hlength := Lexeme.rest_first_length c more
        have hbytes := congrArg byteLength hsplit
        rw [byteLength_append] at hbytes
        rw [List.length_cons] at hlength
        simp only at h
        split at h
        · cases h
        · rename_i t _
          cases hlater : scanFrom (offset + byteLength (Lexeme.first c more).slice)
              (Lexeme.first c more).rest with
          | error piece =>
              rw [hlater] at h
              cases h
          | ok later =>
              rw [hlater] at h
              cases h
              obtain ⟨hin, hapart⟩ := ih (Lexeme.first c more).rest.length (by omega) hlater rfl
              refine ⟨fun p hp => ?_, .cons (fun p hp => (hin p hp).1) hapart⟩
              rcases List.mem_cons.1 hp with rfl | hp
              · exact ⟨Nat.le_refl _, by simp only; omega, by simp only; omega⟩
              · obtain ⟨hstart, hcovers, hstop⟩ := hin p hp
                exact ⟨by omega, hcovers, by omega⟩

/-- What completes something begun is a token of a text. -/
theorem Token.isScanned_of_isFiller {t : Token} (h : t.isFiller = true) : t.IsScanned := by
  cases t with
  | symbol s => exact trivial
  | keywordAs => exact trivial
  | literal l =>
      obtain rfl : l = .bool true := of_decide_eq_true h
      exact trivial
  | ident name =>
      obtain rfl : name = "x" := of_decide_eq_true h
      rw [Token.IsScanned]
      decide

namespace Lambda

/-- **The place of the first of some tokens,** or the end of a text of `size` bytes. -/
def placeOf (size : Nat) (after : List Placed) : Nat :=
  (after.head?.map Placed.start).getD size

/-- A rejected token is found among those of the text. -/
theorem offsetOf_append (before after : List Placed) (size : Nat) :
    offsetOf (before ++ after) size after.length = placeOf size after := by
  rw [offsetOf, List.length_append, Nat.add_sub_cancel, List.drop_left]
  cases after <;> rfl

/-- The tokens of a text begin before the place of those behind them. -/
theorem start_lt_placeOf {cs : List Char} {before after : List Placed}
    (hscan : scan cs = .ok (before ++ after)) :
    ∀ p ∈ before, p.start < placeOf (byteLength cs) after := by
  obtain ⟨hin, hapart⟩ := places_of_scanFrom hscan
  intro p hp
  obtain ⟨-, hcovers, hstop⟩ := hin p (List.mem_append_left _ hp)
  cases after with
  | nil => exact Nat.lt_of_lt_of_le hcovers (Nat.zero_add (byteLength cs) ▸ hstop)
  | cons q after =>
      exact Nat.lt_of_lt_of_le hcovers
        ((List.pairwise_append.1 hapart).2.2 p hp q List.mem_cons_self)

/-- **A syntax error points at the first token that can not go on.** The tokens before it are the
beginning of a lambda, and whatever begins with them and the token is rejected at the token, with
the same fault. Only a name that stands alone is reported itself, although it may be a head. -/
theorem ofText_error_at_first_wrong_token {source : String} {tokens : List Placed} {e : SyntaxError}
    (hscan : scan source.toList = .ok tokens) (h : ofText source = .error e)
    (hdeep : e.fault ≠ .tooDeep) :
    ∃ before after, tokens = before ++ after ∧ (∀ p ∈ before, p.start < e.offset) ∧
      e.offset = placeOf (byteLength source.toList) after ∧
      (NameAlone (tokens.map Placed.token) → before = []) ∧
      (¬NameAlone (tokens.map Placed.token) →
        (∃ more l, (∀ t ∈ more, t.IsScanned) ∧
          ofTokens (before.map Placed.token ++ more) = .ok l) ∧
        ∀ p later, after = p :: later → ∀ more,
          ofTokens (before.map Placed.token ++ p.token :: more) =
            .error ⟨p.token :: more, e.fault⟩) := by
  obtain ⟨r, hr, rfl⟩ := (ofText_eq_error_iff hscan).1 h
  by_cases hname : NameAlone (tokens.map Placed.token)
  · rw [ofTokens_of_nameAlone hname] at hr
    obtain rfl := Except.error.inj hr
    refine ⟨[], tokens, rfl, fun _ hp => (nomatch hp), ?_, fun _ => rfl,
      fun hno => absurd hname hno⟩
    simp only [Rejection.expected, List.length_map]
    exact offsetOf_append [] tokens _
  · obtain ⟨used, hused, ⟨more, l, hfills, hmore⟩, hwrong⟩ :=
      first_wrong_token hr hdeep hname
    obtain ⟨before, after, rfl, rfl, hafter⟩ := List.map_eq_append_iff.1 hused
    simp only [← hafter, List.length_map, offsetOf_append]
    refine ⟨before, after, rfl, start_lt_placeOf hscan, rfl, fun halone => absurd halone hname,
      fun _ => ⟨⟨more, l, fun t ht => ?_, hmore⟩, ?_⟩⟩
    · exact Token.isScanned_of_isFiller (List.all_eq_true.1 hfills t ht)
    · rintro p later rfl more
      exact hwrong p.token (later.map Placed.token) hafter.symm more

/-- A sum without its last operand is wrong at the parenthesis behind it, and might have gone on
with an operand. -/
theorem unfinished_sum_at_first_wrong_token :
    ∃ before after, scan "|x| (x + )".toList = .ok (before ++ after) ∧
      ofText "|x| (x + )" = .error ⟨9, .expected .expression (some (.symbol .closeParen))⟩ ∧
      (∀ p ∈ before, p.start < 9) ∧ 9 = placeOf 10 after ∧
      (∃ more l, (∀ t ∈ more, t.IsScanned) ∧ ofTokens (before.map Placed.token ++ more) = .ok l) ∧
      ∀ p later, after = p :: later → ∀ more,
        ofTokens (before.map Placed.token ++ p.token :: more) =
          .error ⟨p.token :: more, .expected .expression (some (.symbol .closeParen))⟩ := by
  have hscan : scan "|x| (x + )".toList = .ok
      [⟨.symbol .pipe, 0, 1⟩, ⟨.ident "x", 1, 2⟩, ⟨.symbol .pipe, 2, 3⟩,
        ⟨.symbol .openParen, 4, 5⟩, ⟨.ident "x", 5, 6⟩, ⟨.symbol .plus, 7, 8⟩,
        ⟨.symbol .closeParen, 9, 10⟩] := by decide +kernel
  have htokens : ofTokens [.symbol .pipe, .ident "x", .symbol .pipe, .symbol .openParen,
      .ident "x", .symbol .plus, .symbol .closeParen] =
      .error ⟨[.symbol .closeParen], .expected .expression (some (.symbol .closeParen))⟩ := by cbv
  have htext : ofText "|x| (x + )" =
      .error ⟨9, .expected .expression (some (.symbol .closeParen))⟩ :=
    (ofText_eq_error_iff hscan).2 ⟨_, htokens, rfl⟩
  obtain ⟨before, after, hsplit, hstart, hoffset, -, hwrong⟩ :=
    ofText_error_at_first_wrong_token hscan htext (by decide)
  obtain ⟨hbegins, hrejects⟩ := hwrong (by rintro ⟨_, _, h, -⟩; cases h)
  exact ⟨before, after, hsplit ▸ hscan, htext, hstart, hoffset, hbegins, hrejects⟩

/-- **A name that stands alone is reported where it stands,** which is behind the blanks before it.
It might have been a head. -/
theorem lone_name_behind_blank :
    scan " x.id".toList =
        .ok [⟨.ident "x", 1, 2⟩, ⟨.symbol .dot, 2, 3⟩, ⟨.ident "id", 3, 5⟩] ∧
      NameAlone [.ident "x", .symbol .dot, .ident "id"] ∧
      ofText " x.id" = .error ⟨1, .expected .lambda (some (.ident "x"))⟩ ∧
      ∃ l, ofTokens [.ident "x", .symbol .arrow, .ident "x"] = .ok l := by
  have hscan : scan " x.id".toList =
      .ok [⟨.ident "x", 1, 2⟩, ⟨.symbol .dot, 2, 3⟩, ⟨.ident "id", 3, 5⟩] := by decide +kernel
  have halone : NameAlone [.ident "x", .symbol .dot, .ident "id"] := ⟨"x", _, rfl, by decide⟩
  refine ⟨hscan, halone, ?_, ⟨"x", .parameter "x"⟩, by cbv⟩
  exact (ofText_eq_error_iff hscan).2 ⟨_, ofTokens_of_nameAlone halone, rfl⟩

end Lambda

end MemberAccess
