import Mathlib.Data.List.Infix
import MemberAccess.Lambda.Token

/-!
# Grammars in extended Backus-Naur form

A grammar is data: each rule has an expression, in which tokens and rules are put together by
sequences, alternatives, options and repetitions. The phrases of the rules are the least that
satisfy these expressions.

With a phrase its levels are counted, the number of marked parts that are open in it at a time at
most. And a part may be confined by the token behind it, which it does not consume. Therefore a
phrase is told by the tokens from its first one on and by those that it leaves.

What can remain of some tokens behind a phrase is computed by trying everything, for a number of
steps. Beyond these nothing is ruled out, so whatever is ruled out does not remain.

## Main definitions

* `Ebnf`: the expressions.
* `Ebnf.Matches`: the phrases of an expression, given those of the rules.
* `Ebnf.Phrase`: the phrases of the rules of a grammar.
* `Ebnf.remainders`: what can remain behind a phrase.

## Main results

* `Ebnf.Phrase.least`: what satisfies all rules holds of all phrases.
* `Ebnf.mem_remainders`: what remains behind a phrase is not ruled out.
-/

namespace MemberAccess

/-! ### Expressions and phrases -/

/-- **Expressions of a grammar** whose rules are named by `ρ`. -/
inductive Ebnf (ρ : Type) where
  | token (accepts : Token → Bool)
  | rule (r : ρ)
  | seq (first second : Ebnf ρ)
  | alt (left right : Ebnf ρ)
  | opt (body : Ebnf ρ)
  | many (body : Ebnf ρ)
  | notBefore (s : Symbol)
  | deeper (body : Ebnf ρ)

namespace Ebnf

variable {ρ : Type}

instance : Append (Ebnf ρ) := ⟨seq⟩

instance : OrOp (Ebnf ρ) := ⟨alt⟩

/-- **The phrases of an expression** and their levels, given those of the rules. -/
inductive Matches (phrase : ρ → Nat → List Token → List Token → Prop) :
    Ebnf ρ → (levels : Nat) → List Token → List Token → Prop
  | token {accepts : Token → Bool} {t : Token} {rest : List Token} (ht : accepts t = true) :
      Matches phrase (.token accepts) 0 (t :: rest) rest
  | rule {r : ρ} {m : Nat} {ts rest : List Token} (h : phrase r m ts rest) :
      Matches phrase (.rule r) m ts rest
  | seq {a b : Ebnf ρ} {m k : Nat} {ts between rest : List Token}
      (ha : Matches phrase a m ts between) (hb : Matches phrase b k between rest) :
      Matches phrase (.seq a b) (max m k) ts rest
  | left {a b : Ebnf ρ} {m : Nat} {ts rest : List Token} (h : Matches phrase a m ts rest) :
      Matches phrase (.alt a b) m ts rest
  | right {a b : Ebnf ρ} {m : Nat} {ts rest : List Token} (h : Matches phrase b m ts rest) :
      Matches phrase (.alt a b) m ts rest
  | absent {a : Ebnf ρ} {ts : List Token} : Matches phrase (.opt a) 0 ts ts
  | present {a : Ebnf ρ} {m : Nat} {ts rest : List Token} (h : Matches phrase a m ts rest) :
      Matches phrase (.opt a) m ts rest
  | done {a : Ebnf ρ} {ts : List Token} : Matches phrase (.many a) 0 ts ts
  | next {a : Ebnf ρ} {m k : Nat} {ts between rest : List Token}
      (ha : Matches phrase a m ts between) (hmore : Matches phrase (.many a) k between rest) :
      Matches phrase (.many a) (max m k) ts rest
  | notBefore {s : Symbol} {ts : List Token} (hts : ts.head? ≠ some (.symbol s)) :
      Matches phrase (.notBefore s) 0 ts ts
  | deeper {a : Ebnf ρ} {m : Nat} {ts rest : List Token} (h : Matches phrase a m ts rest) :
      Matches phrase (.deeper a) (m + 1) ts rest

/-- **The phrases of the rules** of a grammar. -/
inductive Phrase (grammar : ρ → Ebnf ρ) : ρ → (levels : Nat) → List Token → List Token → Prop
  | intro {r : ρ} {m : Nat} {ts rest : List Token}
      (h : Matches (Phrase grammar) (grammar r) m ts rest) : Phrase grammar r m ts rest

variable {grammar : ρ → Ebnf ρ} {phrase : ρ → Nat → List Token → List Token → Prop}
  {a b c : Ebnf ρ} {m k : Nat} {ts between rest : List Token}

mutual

/-- **What satisfies all rules holds of all phrases.** -/
theorem Phrase.least (hclosed : ∀ r m ts rest, Matches phrase (grammar r) m ts rest →
    phrase r m ts rest) {r : ρ} {m : Nat} {ts rest : List Token} :
    Phrase grammar r m ts rest → phrase r m ts rest
  | .intro h => hclosed _ _ _ _ (Matches.least hclosed h)

/-- What satisfies all rules holds of what the right side of a rule matches. -/
theorem Matches.least (hclosed : ∀ r m ts rest, Matches phrase (grammar r) m ts rest →
    phrase r m ts rest) {e : Ebnf ρ} {m : Nat} {ts rest : List Token} :
    Matches (Phrase grammar) e m ts rest → Matches phrase e m ts rest
  | .token ht => .token ht
  | .rule h => .rule (Phrase.least hclosed h)
  | .seq ha hb => .seq (Matches.least hclosed ha) (Matches.least hclosed hb)
  | .left h => .left (Matches.least hclosed h)
  | .right h => .right (Matches.least hclosed h)
  | .absent => .absent
  | .present h => .present (Matches.least hclosed h)
  | .done => .done
  | .next ha hmore => .next (Matches.least hclosed ha) (Matches.least hclosed hmore)
  | .notBefore hts => .notBefore hts
  | .deeper h => .deeper (Matches.least hclosed h)

end

/-! ### What the expressions say -/

/-- A token is matched by one token that is accepted. -/
@[simp]
theorem matches_token {accepts : Token → Bool} :
    Matches phrase (.token accepts) m ts rest ↔
      m = 0 ∧ ∃ t, accepts t = true ∧ ts = t :: rest := by
  constructor
  · rintro (_ | _)
    exact ⟨rfl, _, ‹_›, rfl⟩
  · rintro ⟨rfl, t, ht, rfl⟩
    exact .token ht

@[simp]
theorem matches_rule {r : ρ} : Matches phrase (.rule r) m ts rest ↔ phrase r m ts rest :=
  ⟨fun h => by cases h; assumption, .rule⟩

/-- One expression after another is matched by two parts, and nests as deep as the deeper one. -/
theorem matches_append : Matches phrase (a ++ b) m ts rest ↔
    ∃ k l between, Matches phrase a k ts between ∧ Matches phrase b l between rest ∧
      m = max k l := by
  constructor
  · intro h
    cases h with
    | seq ha hb => exact ⟨_, _, _, ha, hb, rfl⟩
  · rintro ⟨k, l, between, ha, hb, rfl⟩
    exact .seq ha hb

/-- One of two expressions is matched by what matches either. -/
@[simp]
theorem matches_or : Matches phrase (a ||| b) m ts rest ↔
    Matches phrase a m ts rest ∨ Matches phrase b m ts rest := by
  constructor
  · intro h
    cases h with
    | left h => exact .inl h
    | right h => exact .inr h
  · rintro (h | h)
    · exact .left h
    · exact .right h

/-- An optional expression is matched by nothing, or as the expression. -/
@[simp]
theorem matches_opt : Matches phrase (.opt a) m ts rest ↔
    (m = 0 ∧ rest = ts) ∨ Matches phrase a m ts rest := by
  constructor
  · intro h
    cases h with
    | absent => exact .inl ⟨rfl, rfl⟩
    | present h => exact .inr h
  · rintro (⟨rfl, rfl⟩ | h)
    · exact .absent
    · exact .present h

/-- Nothing is taken, and the symbol does not follow. -/
@[simp]
theorem matches_notBefore {s : Symbol} : Matches phrase (.notBefore s) m ts rest ↔
    m = 0 ∧ rest = ts ∧ ts.head? ≠ some (.symbol s) := by
  constructor
  · intro h
    cases h with
    | notBefore hts => exact ⟨rfl, rfl, hts⟩
  · rintro ⟨rfl, rfl, hts⟩
    exact .notBefore hts

/-- A level is counted on top of those of the expression. -/
@[simp]
theorem matches_deeper : Matches phrase (.deeper a) m ts rest ↔
    ∃ k, Matches phrase a k ts rest ∧ m = k + 1 := by
  constructor
  · intro h
    cases h with
    | deeper h => exact ⟨_, h, rfl⟩
  · rintro ⟨k, h, rfl⟩
    exact .deeper h

/-- A phrase is one of the expression of its rule. -/
theorem phrase_iff {r : ρ} :
    Phrase grammar r m ts rest ↔ Matches (Phrase grammar) (grammar r) m ts rest :=
  ⟨fun ⟨h⟩ => h, .intro⟩

/-! ### Tokens and lists -/

/-- One of some symbols. -/
def symbols (ss : List Symbol) : Ebnf ρ :=
  .token fun t => ss.any fun s => t = .symbol s

/-- A name. -/
def ident : Ebnf ρ :=
  .token fun t => match t with
    | .ident _ => true
    | _ => false

/-- At least one repetition. -/
def many1 (body : Ebnf ρ) : Ebnf ρ :=
  body ++ many body

/-- Entries separated by commas. -/
def separated (entry : Ebnf ρ) : Ebnf ρ :=
  entry ++ many (symbols [.comma] ++ entry)

/-- How expressions after one another are grouped does not matter. -/
@[simp]
theorem matches_assoc :
    Matches phrase (a ++ b ++ c) m ts rest ↔ Matches phrase (a ++ (b ++ c)) m ts rest := by
  simp only [matches_append]
  constructor
  · rintro ⟨_, l, _, ⟨i, j, _, ha, hb, rfl⟩, hc, rfl⟩
    exact ⟨i, max j l, _, ha, ⟨j, l, _, hb, hc, rfl⟩, Nat.max_assoc i j l⟩
  · rintro ⟨i, _, _, ha, ⟨j, l, _, hb, hc, rfl⟩, rfl⟩
    exact ⟨max i j, l, _, ⟨i, j, _, ha, hb, rfl⟩, hc, (Nat.max_assoc i j l).symm⟩

/-- An accepted token stands in front of what the rest matches. -/
@[simp]
theorem matches_token_append {accepts : Token → Bool} :
    Matches phrase (.token accepts ++ a) m ts rest ↔
      ∃ t more, accepts t = true ∧ ts = t :: more ∧ Matches phrase a m more rest := by
  simp only [matches_append, matches_token]
  constructor
  · rintro ⟨_, k, more, ⟨rfl, t, ht, rfl⟩, h, rfl⟩
    exact ⟨t, more, ht, rfl, h⟩
  · rintro ⟨t, more, ht, rfl, h⟩
    exact ⟨0, m, more, ⟨rfl, t, ht, rfl⟩, h, (Nat.zero_max m).symm⟩

/-- One of some symbols is matched by that symbol. -/
@[simp]
theorem matches_symbols {ss : List Symbol} : Matches phrase (symbols ss) m ts rest ↔
    m = 0 ∧ ∃ s ∈ ss, ts = .symbol s :: rest := by
  simp [symbols]

/-- One of the symbols stands in front of what the rest matches. -/
@[simp]
theorem matches_symbols_append {ss : List Symbol} : Matches phrase (symbols ss ++ a) m ts rest ↔
    ∃ s ∈ ss, ∃ more, ts = .symbol s :: more ∧ Matches phrase a m more rest := by
  rw [symbols, matches_token_append]
  constructor
  · rintro ⟨t, more, ht, rfl, h⟩
    obtain ⟨s, hs, ht⟩ := List.any_eq_true.1 ht
    exact ⟨s, hs, more, by rw [of_decide_eq_true ht], h⟩
  · rintro ⟨s, hs, more, rfl, h⟩
    exact ⟨_, more, List.any_eq_true.2 ⟨s, hs, decide_eq_true rfl⟩, rfl, h⟩

/-- One of the symbols stands behind what matches. -/
@[simp]
theorem matches_append_symbols {ss : List Symbol} : Matches phrase (a ++ symbols ss) m ts rest ↔
    ∃ s ∈ ss, Matches phrase a m ts (.symbol s :: rest) := by
  simp only [matches_append, matches_symbols]
  constructor
  · rintro ⟨k, _, _, h, ⟨rfl, s, hs, rfl⟩, rfl⟩
    exact ⟨s, hs, (Nat.max_zero k).symm ▸ h⟩
  · rintro ⟨s, hs, h⟩
    exact ⟨m, 0, _, h, ⟨rfl, s, hs, rfl⟩, (Nat.max_zero m).symm⟩

/-- A name stands in front of what the rest matches. -/
@[simp]
theorem matches_ident_append : Matches phrase (ident ++ a) m ts rest ↔
    ∃ name more, ts = .ident name :: more ∧ Matches phrase a m more rest := by
  rw [ident, matches_token_append]
  constructor
  · rintro ⟨t, more, ht, rfl, h⟩
    cases t with
    | ident name => exact ⟨name, more, rfl, h⟩
    | _ => cases ht
  · rintro ⟨name, more, rfl, h⟩
    exact ⟨_, more, rfl, rfl, h⟩

/-- A name is matched by one token. -/
@[simp]
theorem matches_ident : Matches phrase ident m ts rest ↔
    m = 0 ∧ ∃ name, ts = .ident name :: rest := by
  rw [ident, matches_token]
  refine and_congr_right fun _ => ⟨?_, ?_⟩
  · rintro ⟨t, ht, rfl⟩
    cases t with
    | ident name => exact ⟨name, rfl⟩
    | _ => cases ht
  · rintro ⟨name, rfl⟩
    exact ⟨_, rfl, rfl⟩

/-! ### Repetitions -/

/-- What each turn of a repetition keeps, the whole repetition keeps. -/
theorem Matches.fold {P : Nat → List Token → Prop}
    (hstep : ∀ m k between rest, P m between → Matches phrase a k between rest →
      P (max m k) rest)
    (h : Matches phrase (.many a) k between rest) (hP : P m between) :
    P (max m k) rest := by
  generalize he : Ebnf.many a = e at h
  induction h generalizing m with
  | done => exact (Nat.max_zero m).symm ▸ hP
  | next ha _ _ ih =>
      cases he
      rw [← Nat.max_assoc]
      exact ih (hstep _ _ _ _ hP ha) rfl
  | _ => cases he

/-- A turn behind a repetition is one of it. -/
theorem Matches.snoc (h : Matches phrase (.many a) m ts between)
    (ha : Matches phrase a k between rest) : Matches phrase (.many a) (max m k) ts rest := by
  generalize he : Ebnf.many a = e at h
  induction h with
  | done =>
      cases he
      have hone := ha.next .done
      rwa [Nat.max_zero, ← Nat.zero_max k] at hone
  | next hfirst _ _ ih =>
      cases he
      rw [Nat.max_assoc]
      exact hfirst.next (ih ha rfl)
  | _ => cases he

/-- One entry is a list. -/
theorem Matches.single (h : Matches phrase a m ts rest) : Matches phrase (separated a) m ts rest :=
  Nat.max_zero m ▸ .seq h .done

/-- An entry before a list. -/
theorem Matches.entry (h : Matches phrase a m ts (.symbol .comma :: between))
    (hmore : Matches phrase (separated a) k between rest) :
    Matches phrase (separated a) (max m k) ts rest := by
  cases hmore with
  | seq hnext hmany => exact .seq h (.next (by simpa using hnext) hmany)

/-- What its last entry has and each entry adds, a list has. -/
theorem Matches.foldr {P : Nat → List Token → Prop}
    (hlast : ∀ m ts, Matches phrase a m ts rest → P m ts)
    (hentry : ∀ m k ts more, Matches phrase a m ts (.symbol .comma :: more) → P k more →
      P (max m k) ts)
    (h : Matches phrase (separated a) m ts rest) : P m ts := by
  cases h with
  | @seq _ _ m k ts between rest hfirst hmany =>
      generalize he : many (symbols [.comma] ++ a) = e at hmany
      induction hmany generalizing m ts with
      | done => exact (Nat.max_zero m).symm ▸ hlast m ts hfirst
      | next hturn _ _ ih =>
          cases he
          simp only [matches_symbols_append, List.mem_singleton] at hturn
          obtain ⟨_, rfl, more, rfl, hnext⟩ := hturn
          exact hentry _ _ _ _ hfirst (ih hlast hnext rfl)
      | _ => cases he

/-- A rule that begins with `a` and goes on with repetitions. -/
theorem Phrase.first {r : ρ} (hr : grammar r = a ++ .many b)
    (h : Matches (Phrase grammar) a m ts rest) : Phrase grammar r m ts rest := by
  rw [phrase_iff, hr, ← Nat.max_zero m]
  exact .seq h .done

/-- A phrase of such a rule, and one more repetition. -/
theorem Phrase.append {r : ρ} (hr : grammar r = a ++ .many b)
    (h : Phrase grammar r m ts between) (hb : Matches (Phrase grammar) b k between rest) :
    Phrase grammar r (max m k) ts rest := by
  rw [phrase_iff, hr, matches_append] at h
  obtain ⟨m, l, mid, hfirst, hmany, rfl⟩ := h
  rw [phrase_iff, hr, Nat.max_assoc]
  exact .seq hfirst (hmany.snoc hb)

/-! ### What can remain -/

/-- **What can remain behind a phrase** as far as a number of steps tell. -/
def remainders (grammar : ρ → Ebnf ρ) : (steps : Nat) → Ebnf ρ → List Token → List (List Token)
  | 0, _, ts => ts.tails
  | _ + 1, .token _, [] => []
  | _ + 1, .token accepts, t :: rest => if accepts t then [rest] else []
  | n + 1, .rule r, ts => remainders grammar n (grammar r) ts
  | n + 1, .seq a b, ts => (remainders grammar n a ts).flatMap (remainders grammar n b)
  | n + 1, .alt a b, ts => remainders grammar n a ts ++ remainders grammar n b ts
  | n + 1, .opt a, ts => ts :: remainders grammar n a ts
  | n + 1, .many a, ts =>
    ts :: (remainders grammar n a ts).flatMap (remainders grammar n (.many a))
  | _ + 1, .notBefore s, ts => if ts.head? = some (.symbol s) then [] else [ts]
  | n + 1, .deeper a, ts => remainders grammar n a ts

/-- A phrase leaves some of the last tokens. -/
theorem Matches.isSuffix {e : Ebnf ρ} (hphrase : ∀ r m ts rest, phrase r m ts rest → rest <:+ ts)
    (h : Matches phrase e m ts rest) : rest <:+ ts := by
  induction h with
  | token _ => exact List.suffix_cons _ _
  | rule h => exact hphrase _ _ _ _ h
  | seq _ _ iha ihb => exact ihb.trans iha
  | left _ ih => exact ih
  | right _ ih => exact ih
  | absent => exact List.suffix_rfl
  | present _ ih => exact ih
  | done => exact List.suffix_rfl
  | next _ _ iha ihmore => exact ihmore.trans iha
  | notBefore _ => exact List.suffix_rfl
  | deeper _ ih => exact ih

/-- What follows a phrase is the end of the tokens. -/
theorem Phrase.isSuffix {r : ρ} (h : Phrase grammar r m ts rest) : rest <:+ ts :=
  h.least fun _ _ _ _ => Matches.isSuffix fun _ _ _ _ h => h

/-- **What remains behind a phrase is not ruled out,** after however many steps. -/
theorem mem_remainders {e : Ebnf ρ} (h : Matches (Phrase grammar) e m ts rest) (steps : Nat) :
    rest ∈ remainders grammar steps e ts := by
  induction steps generalizing e m ts rest with
  | zero =>
      rw [remainders, List.mem_tails]
      exact h.isSuffix fun _ _ _ _ h => h.isSuffix
  | succ n ih =>
      cases h with
      | token ht => rw [remainders, if_pos ht]; exact List.mem_singleton.2 rfl
      | rule h => exact ih (phrase_iff.1 h)
      | seq ha hb => exact List.mem_flatMap.2 ⟨_, ih ha, ih hb⟩
      | left h => exact List.mem_append_left _ (ih h)
      | right h => exact List.mem_append_right _ (ih h)
      | absent => exact List.mem_cons_self
      | present h => exact List.mem_cons_of_mem _ (ih h)
      | done => exact List.mem_cons_self
      | next ha hmore => exact List.mem_cons_of_mem _ (List.mem_flatMap.2 ⟨_, ih ha, ih hmore⟩)
      | notBefore hts => rw [remainders, if_neg hts]; exact List.mem_singleton.2 rfl
      | deeper h => exact ih h

end Ebnf

end MemberAccess
