import MemberAccess.Lambda.Reader

/-!
# Prompt decisions

What a reader makes of tokens is settled by those that it consumes and by the one behind them. So a
rejection does not depend on what follows the rejected token. And a reader does not go on once
nothing can come of it: whatever it has consumed is the beginning of something that it reads,
unless too many levels are open.

The property is kept by the ways in which readers are put together. A continuation after a first
reader sees the token that the first one stopped at, so the first one has to stop at the other
tokens that the continuation could use there, too. Therefore the property speaks of tokens at which
a reader stops.

## Main definitions

* `Prompt`: a reader decides promptly on some tokens.
* `onToken`: going on in one of two ways, as the next token says.

## Main results

* `Prompt.bind`: two readers, one after the other.
* `Prompt.bind_entry`: the entries of a list.
* `Prompt.choose`: a token that may come.
-/

namespace MemberAccess

/-! ### Prompt decisions -/

/-- The tokens that something begun can be completed with: symbols, a name and a constant. -/
def Token.isFiller : Token → Bool
  | symbol _ => true
  | keywordAs => false
  | literal l => l = .bool true
  | ident name => name = "x"

/-- Going on behind the token `t` if it comes, and in another way if it does not. -/
def onToken {α : Type} (t : Token) (next other : List Token → Except Rejection (α × List Token)) :
    List Token → Except Rejection (α × List Token)
  | [] => other []
  | s :: rest => if s = t then next rest else other (s :: rest)

/-- The token is there, and reading goes on behind it. -/
theorem onToken_cons {α : Type} (t : Token)
    (next other : List Token → Except Rejection (α × List Token)) (rest : List Token) :
    onToken t next other (t :: rest) = next rest := if_pos rfl

/-- The token is not there, and reading goes on as it would without. -/
theorem onToken_of_ne {α : Type} {t : Token}
    {next other : List Token → Except Rejection (α × List Token)} {ts : List Token}
    (h : ts.head? ≠ some t) : onToken t next other ts = other ts := by
  cases ts with
  | nil => rfl
  | cons s rest => exact if_neg fun hs => h (congrArg some hs)

/-- **A reader decides promptly** on the tokens `ts`. It consumes some of them, and what it reads or
rejects is settled by those and the token behind them. What it has read it also reads in front of
all tokens that it stops at; and what it has rejected could have been mended at the rejected
token. -/
inductive Prompt {α : Type} (stops : List Token → Prop)
    (read : List Token → Except Rejection (α × List Token)) (ts : List Token) : Prop
  | reads (used rest : List Token) (a : α) (hts : ts = used ++ rest)
      (hread : ∀ more, more.head? = rest.head? ∨ stops more →
        read (used ++ more) = .ok (a, more))
  | rejects (used rest : List Token) (fault : SyntaxFault) (hts : ts = used ++ rest)
      (hreject : ∀ more, more.head? = rest.head? → read (used ++ more) = .error ⟨more, fault⟩)
      (hmend : fault ≠ .tooDeep → ∃ patch a, patch.all Token.isFiller = true ∧
        ∀ more, stops more → read (used ++ (patch ++ more)) = .ok (a, more))

namespace Prompt

variable {α β : Type} {stops : List Token → Prop}
  {read : List Token → Except Rejection (α × List Token)} {ts rest : List Token}

/-- Tokens that are read whatever follows them. -/
theorem done (used : List Token) (a : α) (h : ∀ more, read (used ++ more) = .ok (a, more)) :
    Prompt stops read (used ++ rest) :=
  .reads used rest a rfl fun more _ => h more

/-- A reader that stops at once. -/
theorem stop (a : α) (h : ∀ more, more.head? = ts.head? ∨ stops more → read more = .ok (a, more)) :
    Prompt stops read ts :=
  .reads [] ts a rfl h

/-- A reader that rejects the first token, and could have gone on with other tokens instead. -/
theorem reject (fault : SyntaxFault)
    (h : ∀ more, more.head? = ts.head? → read more = .error ⟨more, fault⟩)
    (hmend : fault ≠ .tooDeep → ∃ patch a, patch.all Token.isFiller = true ∧
      ∀ more, stops more → read (patch ++ more) = .ok (a, more)) : Prompt stops read ts :=
  .rejects [] ts fault rfl h hmend

/-- A reader that consumes some tokens and goes on as another one. -/
theorem behind {next : List Token → Except Rejection (α × List Token)} (used : List Token)
    (hread : ∀ more, read (used ++ more) = next more) (h : Prompt stops next rest) :
    Prompt stops read (used ++ rest) := by
  cases h with
  | reads front rest a hts h =>
      refine .reads (used ++ front) rest a (by rw [hts, List.append_assoc]) fun more hmore => ?_
      rw [List.append_assoc, hread, h more hmore]
  | rejects front rest fault hts h hmend =>
      refine .rejects (used ++ front) rest fault (by rw [hts, List.append_assoc]) ?_ ?_
      · intro more hmore
        rw [List.append_assoc, hread, h more hmore]
      · intro hfault
        obtain ⟨patch, a, hfills, hpatch⟩ := hmend hfault
        refine ⟨patch, a, hfills, fun more hmore => ?_⟩
        rw [List.append_assoc, hread, hpatch more hmore]

/-- A reader may be asked to stop at fewer tokens. -/
theorem mono {stops' : List Token → Prop} (h : Prompt stops read ts)
    (hstops : ∀ more, stops' more → stops more) : Prompt stops' read ts := by
  cases h with
  | reads used rest a hts h =>
      exact .reads used rest a hts fun more hmore => h more (hmore.imp_right (hstops more))
  | rejects used rest fault hts h hmend =>
      refine .rejects used rest fault hts h fun hfault => ?_
      obtain ⟨patch, a, hfills, hpatch⟩ := hmend hfault
      exact ⟨patch, a, hfills, fun more hmore => hpatch more (hstops more hmore)⟩

/-- A change of the value. -/
theorem map (f : α → β) (h : Prompt stops read ts) :
    Prompt stops (fun ts => (read ts).map fun r => (f r.1, r.2)) ts := by
  cases h with
  | reads used rest a hts h =>
      refine .reads used rest (f a) hts fun more hmore => ?_
      simp only [h more hmore, Except.map]
  | rejects used rest fault hts h hmend =>
      refine .rejects used rest fault hts ?_ ?_
      · intro more hmore
        simp only [h more hmore, Except.map]
      · intro hfault
        obtain ⟨patch, a, hfills, hpatch⟩ := hmend hfault
        refine ⟨patch, f a, hfills, fun more hmore => ?_⟩
        simp only [hpatch more hmore, Except.map]

/-- A reader that takes tokens which begin as `ts` for what another reader takes them for. It reads
nothing without a token, and there is something that it reads instead. -/
theorem of_head {other : List Token → Except Rejection (α × List Token)}
    (h : Prompt stops other ts) (hread : ∀ us, us.head? = ts.head? → read us = other us)
    (hconsumes : ∀ a, read ts ≠ .ok (a, ts))
    (hmend : ∃ patch a, patch.all Token.isFiller = true ∧
      ∀ more, stops more → read (patch ++ more) = .ok (a, more)) :
    Prompt stops read ts := by
  cases h with
  | reads used rest a hts h =>
      cases used with
      | nil =>
          rw [List.nil_append] at hts
          exact absurd ((hread ts rfl).trans (hts ▸ h rest (.inl rfl))) (hconsumes a)
      | cons t used =>
          refine .reads (t :: used) rest a hts fun more hmore => ?_
          rw [hread _ (hts ▸ rfl), h more hmore]
  | rejects used rest fault hts h hother =>
      cases used with
      | nil =>
          refine .rejects [] rest fault hts (fun more hmore => ?_) fun _ => hmend
          rw [hread _ (hts ▸ hmore), h more hmore]
      | cons t used =>
          refine .rejects (t :: used) rest fault hts (fun more hmore => ?_) fun hfault => ?_
          · rw [hread _ (hts ▸ rfl), h more hmore]
          · obtain ⟨patch, a, hfills, hpatch⟩ := hother hfault
            refine ⟨patch, a, hfills, fun more hmore => ?_⟩
            rw [hread _ (hts ▸ rfl), hpatch more hmore]

variable {stopsFirst : List Token → Prop}

/-- **Two readers, one after the other.** The first one has to stop where the second one stops at
once, and in front of the tokens with which the second one can always end. -/
theorem bind (next : α → List Token → Except Rejection (β × List Token))
    (h : Prompt stopsFirst read ts)
    (hnext : ∀ a rest, read ts = .ok (a, rest) → Prompt stops (next a) rest)
    (hstops : ∀ a b more, stops more → next a more = .ok (b, more) → stopsFirst more)
    (hmend : ∀ a, ∃ patch b, patch.all Token.isFiller = true ∧ ∀ more, stops more →
      stopsFirst (patch ++ more) ∧ next a (patch ++ more) = .ok (b, more)) :
    Prompt stops (fun ts => (read ts).bind fun r => next r.1 r.2) ts := by
  cases h with
  | rejects used rest fault hts h hfirst =>
      refine .rejects used rest fault hts (fun more hmore => ?_) fun hfault => ?_
      · simp only [h more hmore, Except.bind]
      · obtain ⟨patch, a, hfills, hpatch⟩ := hfirst hfault
        obtain ⟨ending, b, hends, hending⟩ := hmend a
        refine ⟨patch ++ ending, b, by rw [List.all_append, hfills, hends]; rfl,
          fun more hmore => ?_⟩
        obtain ⟨hstop, hread⟩ := hending more hmore
        simp only [List.append_assoc, hpatch _ hstop, Except.bind, hread]
  | reads used rest a hts h =>
      have hread : read ts = .ok (a, rest) := hts ▸ h rest (.inl rfl)
      cases hnext a rest hread with
      | reads front rest' b hrest hb =>
          refine .reads (used ++ front) rest' b (by rw [hts, hrest, List.append_assoc])
            fun more hmore => ?_
          have hfront : read (used ++ (front ++ more)) = .ok (a, front ++ more) := by
            refine h _ ?_
            cases front with
            | cons t front => exact .inl (hrest ▸ rfl)
            | nil =>
                rcases hmore with hsame | hstop
                · exact .inl (hrest ▸ hsame)
                · exact .inr (hstops a b more hstop (hb more (.inr hstop)))
          simp only [List.append_assoc, hfront, Except.bind, hb more hmore]
      | rejects front rest' fault hrest hb hpatch =>
          refine .rejects (used ++ front) rest' fault (by rw [hts, hrest, List.append_assoc])
            (fun more hmore => ?_) fun hfault => ?_
          · have hfront : read (used ++ (front ++ more)) = .ok (a, front ++ more) := by
              refine h _ (.inl ?_)
              cases front with
              | cons t front => exact hrest ▸ rfl
              | nil => exact hrest ▸ hmore
            simp only [List.append_assoc, hfront, Except.bind, hb more hmore]
          · cases front with
            | cons t front =>
                obtain ⟨patch, b, hfills, hpatch⟩ := hpatch hfault
                refine ⟨patch, b, hfills, fun more hmore => ?_⟩
                have hfront : read (used ++ (t :: front ++ (patch ++ more))) =
                    .ok (a, t :: front ++ (patch ++ more)) := h _ (.inl (hrest ▸ rfl))
                simp only [List.append_assoc, hfront, Except.bind, hpatch more hmore]
            | nil =>
                -- The token that the first reader stopped at is wrong, so another one replaces it.
                obtain ⟨ending, b, hends, hending⟩ := hmend a
                refine ⟨ending, b, hends, fun more hmore => ?_⟩
                obtain ⟨hstop, hread⟩ := hending more hmore
                simp only [List.append_nil, h _ (.inr hstop), Except.bind, hread]

/-- A reader before a loop that stops wherever the reader does. -/
theorem bind_loop (next : α → List Token → Except Rejection (β × List Token))
    (h : Prompt stopsFirst read ts)
    (hnext : ∀ a rest, read ts = .ok (a, rest) → Prompt stops (next a) rest)
    (hstops : ∀ more, stops more → stopsFirst more)
    (hstop : ∀ a, ∃ b, ∀ more, stops more → next a more = .ok (b, more)) :
    Prompt stops (fun ts => (read ts).bind fun r => next r.1 r.2) ts := by
  refine h.bind next hnext (fun _ _ more hmore _ => hstops more hmore) fun a => ?_
  obtain ⟨b, hb⟩ := hstop a
  exact ⟨[], b, rfl, fun more hmore => ⟨hstops more hmore, hb more hmore⟩⟩

/-- **A token that may come,** where it does not come before the end. -/
theorem choose {t : Token} {next other : List Token → Except Rejection (α × List Token)}
    (hnext : ∀ rest, ts = t :: rest → Prompt stops next rest) (hother : Prompt stops other ts)
    (hstops : ∀ more, stops more → more.head? ≠ some t)
    (hstop : ∃ a, ∀ more, stops more → other more = .ok (a, more)) :
    Prompt stops (onToken t next other) ts := by
  by_cases ht : ts.head? = some t
  · obtain ⟨rest, rfl⟩ := List.head?_eq_some_iff.1 ht
    exact (hnext rest rfl).behind [t] (onToken_cons t next other)
  have hread : ∀ us, us.head? = ts.head? → onToken t next other us = other us :=
    fun us hus => onToken_of_ne (hus ▸ ht)
  cases hother with
  | reads used rest a hts h =>
      refine .reads used rest a hts fun more hmore => ?_
      rw [← h more hmore]
      cases used with
      | cons s used => exact hread _ (hts ▸ rfl)
      | nil =>
          rcases hmore with hsame | hmore
          · exact hread _ (hts ▸ hsame)
          · exact onToken_of_ne (hstops more hmore)
  | rejects used rest fault hts h hmend =>
      refine .rejects used rest fault hts (fun more hmore => ?_) fun hfault => ?_
      · rw [← h more hmore]
        cases used with
        | cons s used => exact hread _ (hts ▸ rfl)
        | nil => exact hread _ (hts ▸ hmore)
      · cases used with
        | cons s used =>
            obtain ⟨patch, a, hfills, hpatch⟩ := hmend hfault
            refine ⟨patch, a, hfills, fun more hmore => ?_⟩
            rw [hread _ (hts ▸ rfl), hpatch more hmore]
        | nil =>
            obtain ⟨a, ha⟩ := hstop
            refine ⟨[], a, rfl, fun more hmore => ?_⟩
            rw [List.nil_append, List.nil_append, onToken_of_ne (hstops more hmore), ha more hmore]

/-- **An entry of a list,** behind which the list goes on after a separator or is closed. It may
be closed behind every entry. -/
theorem bind_entry (separator closer : Symbol) (what : Expectation) (value : α → β)
    (next more : α → List Token → Except Rejection (β × List Token))
    (h : Prompt stopsFirst read ts)
    (hseparator : ∀ a rest, next a (.symbol separator :: rest) = more a rest)
    (hcloser : ∀ a rest, next a (.symbol closer :: rest) = .ok (value a, rest))
    (helse : ∀ a rest, rest.head? ≠ some (.symbol separator) → rest.head? ≠ some (.symbol closer) →
      next a rest = .error (.expected what rest))
    (hmore : ∀ a rest, read ts = .ok (a, .symbol separator :: rest) →
      Prompt (fun _ => True) (more a) rest)
    (hshort : ∀ a us b rest, more a us = .ok (b, rest) → rest.length < us.length)
    (hstops : ∀ rest, stopsFirst (.symbol closer :: rest)) :
    Prompt (fun _ => True) (fun ts => (read ts).bind fun r => next r.1 r.2) ts := by
  refine h.bind next (fun a rest hread => ?_) (fun a b rest _ hnext => ?_) fun a =>
    ⟨[.symbol closer], value a, rfl, fun rest _ => ⟨hstops rest, hcloser a rest⟩⟩
  · by_cases hsep : rest.head? = some (.symbol separator)
    · obtain ⟨rest, rfl⟩ := List.head?_eq_some_iff.1 hsep
      exact (hmore a rest hread).behind [.symbol separator] (hseparator a)
    by_cases hclose : rest.head? = some (.symbol closer)
    · obtain ⟨rest, rfl⟩ := List.head?_eq_some_iff.1 hclose
      exact .done [.symbol closer] (value a) (hcloser a)
    refine .reject (.expected what rest.head?) (fun us hus => ?_) fun _ =>
      ⟨[.symbol closer], value a, rfl, fun us _ => hcloser a us⟩
    rw [helse a us (hus ▸ hsep) (hus ▸ hclose), Rejection.expected, hus]
  · -- A continuation that reads something consumes a token.
    exfalso
    by_cases hsep : rest.head? = some (.symbol separator)
    · obtain ⟨us, rfl⟩ := List.head?_eq_some_iff.1 hsep
      have hlt := hshort a us b _ (hseparator a us ▸ hnext)
      rw [List.length_cons] at hlt
      omega
    by_cases hclose : rest.head? = some (.symbol closer)
    · obtain ⟨us, rfl⟩ := List.head?_eq_some_iff.1 hclose
      rw [hcloser a us] at hnext
      exact List.cons_ne_self _ _ (congrArg Prod.snd (Except.ok.inj hnext)).symm
    · rw [helse a rest hsep hclose] at hnext
      cases hnext

end Prompt

end MemberAccess
