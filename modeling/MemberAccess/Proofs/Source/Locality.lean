import MemberAccess.Proofs.Source.Reading

/-!
# What follows a type does not matter

A type ends where the code ends, or at a comma. The readers of types look ahead, but not past such
an end, so that a type is read alike whatever stands behind it. This holds of every reader that is
used outside of groups, as its parts are put together by a few combinators; the content of a group
is the same anyway.

Between `<` and `>` a reader asks whether a comma stands here, and there the end of the code and a
comma are told apart. Such a reader is only confined as long as more code follows, which the bracket
that closes the list makes sure.

## Main definitions

* `EndsType`: the places where a type may end.
* `Confined`: readers that do not look past such a place.
* `Advances`: readers that take a token at least.
* `CodeLayer.IsConfined`: layers of confined readers.

## Main results

* `Confined.bind`, `Confined.repeated`, `Confined.inside`: the combinators keep it.
* `Confined.bindClosed`: a reader that needs more code to follow, in front of one that takes some.
* `Confined.type`, `CodeLayer.isConfined_ofDepth`: types are read in a confined way.
-/

namespace MemberAccess.Source

-- The size that is counted for an instance doubles with each step of a chain of choices.
set_option synthInstance.maxSize 100000000

variable {α β ε : Type}

/-! ### Where a type ends -/

/-- **Where a type may end:** at the end of the code, or at a comma. -/
def EndsType (ts : List TokenTree) : Prop :=
  ∀ t ∈ ts.head?, ∃ joined, t = .mark ',' joined

/-- At the end of a type there is nothing, or a comma. -/
theorem EndsType.cases {ts : List TokenTree} (h : EndsType ts) :
    ts = [] ∨ ∃ joined more, ts = .mark ',' joined :: more := by
  cases ts with
  | nil => exact .inl rfl
  | cons t more =>
      obtain ⟨joined, rfl⟩ := h t rfl
      exact .inr ⟨joined, more, rfl⟩

/-- An operator without a comma. -/
class Operator (s : String) : Prop where
  ne_nil : s.toList ≠ []
  noComma : ',' ∉ s.toList

instance : Operator "::" := ⟨by decide, by decide⟩
instance : Operator "->" := ⟨by decide, by decide⟩
instance : Operator "<" := ⟨by decide, by decide⟩
instance : Operator "<=" := ⟨by decide, by decide⟩
instance : Operator ">" := ⟨by decide, by decide⟩
instance : Operator "=" := ⟨by decide, by decide⟩
instance : Operator "!=" := ⟨by decide, by decide⟩
instance : Operator "!" := ⟨by decide, by decide⟩
instance : Operator ":" := ⟨by decide, by decide⟩
instance : Operator "+" := ⟨by decide, by decide⟩
instance : Operator "?" := ⟨by decide, by decide⟩
instance : Operator "*" := ⟨by decide, by decide⟩
instance : Operator "&" := ⟨by decide, by decide⟩
instance : Operator "#" := ⟨by decide, by decide⟩

/-- No operator without a comma reaches over the end of a type. -/
theorem afterMarks?_append {cs : List Char} (hcs : ',' ∉ cs) {u k : List TokenTree}
    (hk : EndsType k) :
    (afterMarks? cs (u ++ k)).isSome = (afterMarks? cs u).isSome := by
  induction cs generalizing u with
  | nil => cases u <;> rfl
  | cons c more ih =>
      rw [List.mem_cons, not_or] at hcs
      cases u with
      | nil =>
          rcases hk.cases with rfl | ⟨joined, rest, rfl⟩
          · rfl
          · have hc : ¬(c = ',') := fun h => hcs.1 h.symm
            simp [afterMarks?, hc]
      | cons t u =>
          cases t with
          | mark d joined =>
              rw [List.cons_append, afterMarks?, afterMarks?]
              split
              · exact ih hcs.2
              · rfl
          | word | lifetime | literal | group => rfl

/-- What follows an operator is the same whatever stands behind it. -/
theorem afterMarks?_eq_some {cs : List Char} {ts rest : List TokenTree}
    (h : afterMarks? cs ts = some rest) :
    ∃ w, ts = w ++ rest ∧ w.length = cs.length ∧
      ∀ more, afterMarks? cs (w ++ more) = some more := by
  fun_induction afterMarks? cs ts with
  | case1 ts => cases h; exact ⟨[], rfl, rfl, fun _ => rfl⟩
  | case2 c more d joined ts hc ih =>
      obtain ⟨w, rfl, hlength, hw⟩ := ih h
      refine ⟨.mark d joined :: w, rfl, congrArg (· + 1) hlength, fun more' => ?_⟩
      rw [List.cons_append, afterMarks?, if_pos hc]
      exact hw more'
  | case3 => cases h
  | case4 => cases h

/-! ### Readers that take a token -/

/-- **A reader that takes a token at least.** -/
class Advances (r : StateT Cursor (Except ε) α) : Prop where
  length_lt : ∀ {c d : Cursor} {a : α}, r c = .ok (a, d) → d.rest.length < c.rest.length

namespace Advances

instance bind (r : StateT Cursor (Except ε) α) (f : α → StateT Cursor (Except ε) β) [Advances r]
    [∀ a, Forward (f a)] : Advances (r >>= f) where
  length_lt h := by
    obtain ⟨a, e, hr, hf⟩ := bind_eq_ok_iff.1 h
    exact Nat.lt_of_le_of_lt (Forward.leads hf).rest.length_le (length_lt hr)

instance mark (s : String) [hs : Operator s] : Advances (CodeReader.mark s) where
  length_lt {c d a} h := by
    rw [CodeReader.mark, CodeReader.ahead_bind] at h
    cases hmore : afterMarks? s.toList c.rest with
    | none => rw [hmore] at h; cases h
    | some ts =>
        rw [hmore] at h
        cases h
        obtain ⟨w, hw, hlength, -⟩ := afterMarks?_eq_some hmore
        have hpos := List.length_pos_of_ne_nil hs.ne_nil
        change ts.length < c.rest.length
        rw [hw, List.length_append]
        omega

instance word (w : String) : Advances (CodeReader.word w) where
  length_lt {c d a} h := by
    rw [CodeReader.word_read h]
    exact Nat.lt_succ_self _

end Advances

/-! ### Readers that do not look past the end of a type -/

/-- **A reader that does not look past the end of a type:** if it stops there or in front of it, it
reads the same whatever follows. With `inner`, it has to stop in front of it. -/
class Confined (inner : Bool) (r : StateT Cursor (Except ε) α) : Prop where
  swap : ∀ {u v k k' : List TokenTree} {leftOver after : Option Bracket} {a : α},
    EndsType k → EndsType k' → (inner = true → v ≠ []) →
    r ⟨u ++ k, leftOver⟩ = .ok (a, ⟨v ++ k, after⟩) →
    r ⟨u ++ k', leftOver⟩ = .ok (a, ⟨v ++ k', after⟩)

namespace Confined

variable {inner : Bool}

/-! ### Combinators -/

theorem ok_inj {a b : α} {ts us : List TokenTree} {l m : Option Bracket} :
    (Except.ok (a, ⟨ts, l⟩) : Except ε (α × Cursor)) = .ok (b, ⟨us, m⟩) ↔
      a = b ∧ ts = us ∧ l = m := by
  simp only [Except.ok.injEq, Prod.mk.injEq, Cursor.mk.injEq]

/-- What is left in front of the end of a type ends what was to be read in front of it. -/
theorem exists_prefix {w v k : List TokenTree} (h : v ++ k <:+ w) : ∃ u, w = (u ++ v) ++ k := by
  obtain ⟨u, rfl⟩ := h
  exact ⟨u, (List.append_assoc u v k).symm⟩

instance pure (a : α) : Confined inner (Pure.pure a : StateT Cursor (Except ε) α) where
  swap {u v k k' leftOver after b} _ _ _ h := by
    obtain ⟨rfl, huv, rfl⟩ := ok_inj.1 h
    exact ok_inj.2 ⟨rfl, congrArg (· ++ k') (List.append_cancel_right huv), rfl⟩

instance throw (e : ε) : Confined inner (throw e : StateT Cursor (Except ε) α) where
  swap _ _ _ h := nomatch h

instance bind (r : StateT Cursor (Except ε) α) (f : α → StateT Cursor (Except ε) β)
    [Confined inner r] [∀ a, Confined inner (f a)] [∀ a, Forward (f a)] :
    Confined inner (r >>= f) where
  swap {u v k k' leftOver after b} hk hk' hv h := by
    obtain ⟨a, ⟨w, middle⟩, hr, hf⟩ := bind_eq_ok_iff.1 h
    obtain ⟨u', rfl⟩ := exists_prefix (Forward.leads hf).rest
    have hv' : inner = true → u' ++ v ≠ [] := fun hinner happ =>
      hv hinner (List.append_eq_nil_iff.1 happ).2
    exact bind_eq_ok_iff.2 ⟨a, _, swap hk hk' hv' hr, swap hk hk' hv hf⟩

/-- **A reader that needs more code to follow** is confined in front of one that takes some. -/
theorem bindClosed {r : StateT Cursor (Except ε) α} {f : α → StateT Cursor (Except ε) β}
    [Confined true r] [∀ a, Confined inner (f a)] [∀ a, Forward (f a)] [∀ a, Advances (f a)] :
    Confined inner (r >>= f) where
  swap {u v k k' leftOver after b} hk hk' hv h := by
    obtain ⟨a, ⟨w, middle⟩, hr, hf⟩ := bind_eq_ok_iff.1 h
    obtain ⟨u', rfl⟩ := exists_prefix (Forward.leads hf).rest
    have hlength : (v ++ k).length < ((u' ++ v) ++ k).length := Advances.length_lt hf
    have hv' : true = true → u' ++ v ≠ [] := fun _ happ => by
      rw [happ, List.nil_append, List.length_append] at hlength
      omega
    exact bind_eq_ok_iff.2 ⟨a, _, swap hk hk' hv' hr, swap hk hk' hv hf⟩

variable {r : StateT Cursor (Except ε) α} {f : α → StateT Cursor (Except ε) β} in
/-- What is read behind a confined reader is confined if each reader that goes on is. -/
theorem seq (hr : Confined inner r) (hforward : ∀ a, Forward (f a))
    (h : ∀ a, Confined inner (f a)) : Confined inner (r >>= f) :=
  bind r f

instance ite (p : Prop) [Decidable p] (r s : StateT Cursor (Except ε) α) [Confined inner r]
    [Confined inner s] : Confined inner (if p then r else s) := by
  split <;> infer_instance

instance reject (f : Fault) : Confined inner (CodeReader.reject f : CodeReader α) :=
  throw f

instance want (what : Wanted) : Confined inner (CodeReader.want what : CodeReader α) where
  swap _ _ _ h := nomatch h

/-- **Reading again and again** is confined if each turn is. -/
instance repeated (step : CodeReader (α × Bool)) [Confined inner step] [Forward step] :
    Confined inner (CodeReader.repeated step) where
  swap {u v k k' leftOver after as} hk hk' hv h := by
    generalize hc : (⟨u ++ k, leftOver⟩ : Cursor) = c at h
    generalize hd : (⟨v ++ k, after⟩ : Cursor) = d at h
    fun_induction CodeReader.repeated step c generalizing u leftOver as d with
    | case1 | case2 => cases h
    | case3 c a again next hstep hgo more last hmore ih =>
        cases h
        subst hd hc
        obtain ⟨w, middle⟩ := next
        obtain ⟨u', rfl⟩ := exists_prefix (Forward.leads hmore).rest
        have hv' : inner = true → u' ++ v ≠ [] := fun hinner happ =>
          hv hinner (List.append_eq_nil_iff.1 happ).2
        have hlength : ((u' ++ v) ++ k').length < (u ++ k').length := by
          have hlt : ((u' ++ v) ++ k).length < (u ++ k).length := hgo.2
          simp only [List.length_append] at hlt ⊢
          omega
        obtain ⟨rfl, -⟩ := hgo
        exact CodeReader.repeated_cons (swap hk hk' hv' hstep) hlength (ih rfl _ rfl hmore)
    | case4 c a again next hstep hstop =>
        cases h
        subst hd hc
        have hnext := swap hk hk' hv hstep
        have hstop' : ¬(again = true ∧ (v ++ k').length < (u ++ k').length) := by
          rintro ⟨hagain, hlength⟩
          refine hstop ⟨hagain, ?_⟩
          simp only [List.length_append] at hlength ⊢
          omega
        rw [CodeReader.repeated, hnext]
        exact if_neg hstop'

/-- A confined step may be repeated. -/
theorem repeatedly {step : CodeReader (α × Bool)} [Forward step] (h : Confined inner step) :
    Confined inner (CodeReader.repeated step) :=
  repeated step

instance gathered (step : CodeReader (List TokenTree × Bool)) [Confined inner step]
    [Forward step] : Confined inner (CodeReader.gathered step) := by
  unfold CodeReader.gathered; infer_instance

instance anyM_nil (look : α → CodeReader Bool) : Confined inner (List.anyM look []) :=
  Confined.pure false

instance anyM_cons (look : α → CodeReader Bool) (a : α) (more : List α)
    [Confined inner (look a)] [Confined inner (more.anyM look)] [∀ a, Forward (look a)] :
    Confined inner ((a :: more).anyM look) := by
  unfold List.anyM
  refine seq inferInstance (fun found => ?_) fun found => ?_ <;> cases found <;> infer_instance

/-- **The content of a group** is the same whatever follows the group, so its reader need not be
confined. -/
instance inside (b : Bracket) (r : CodeReader α) : Confined inner (CodeReader.inside b r) where
  swap {u v k k' leftOver after a} hk hk' _ h := by
    rw [CodeReader.inside, CodeReader.ahead_bind] at h ⊢
    cases u with
    | nil =>
        exfalso
        rcases hk.cases with rfl | ⟨joined, more, rfl⟩ <;> cases h
    | cons t u =>
        cases t with
        | group d content =>
            simp only [List.cons_append] at h ⊢
            split at h
            · rename_i hd
              rw [if_pos hd]
              rw [CodeReader.goTo_bind] at h ⊢
              obtain ⟨read, e, hread, h⟩ := bind_eq_ok_iff.1 h
              obtain ⟨rfl, huv, rfl⟩ := ok_inj.1 h
              refine bind_eq_ok_iff.2 ⟨read, e, hread, ok_inj.2 ⟨rfl, ?_, rfl⟩⟩
              exact congrArg (· ++ k') (List.append_cancel_right huv)
            · cases h
        | word | lifetime | literal | mark => cases h

instance wrapped (b : Bracket) (r : CodeReader (List TokenTree)) [Forward r] :
    Confined inner (CodeReader.wrapped b r) := by
  unfold CodeReader.wrapped; infer_instance

/-! ### Looking ahead -/

/-- A look at the code ahead is confined if it gives the same whatever follows a type. -/
theorem ofLook {r : CodeReader α} (look : List TokenTree → α)
    (hr : ∀ c, r c = .ok (look c.rest, c))
    (hlook : ∀ {u k k'}, EndsType k → EndsType k' → look (u ++ k) = look (u ++ k')) :
    Confined inner r where
  swap {u v k k' leftOver after a} hk hk' _ h := by
    rw [hr] at h ⊢
    obtain ⟨rfl, huv, rfl⟩ := ok_inj.1 h
    obtain rfl := List.append_cancel_right huv
    exact ok_inj.2 ⟨hlook hk' hk, rfl, rfl⟩

instance sees (s : String) [hs : Operator s] : Confined inner (CodeReader.sees s) :=
  ofLook (fun ts => (afterMarks? s.toList ts).isSome) (fun _ => rfl) fun hk hk' => by
    rw [afterMarks?_append hs.noComma hk, afterMarks?_append hs.noComma hk']

/-- Readers that look at the tokens first are confined if they are for all tokens, and if what
follows a type makes no difference to them. -/
theorem looking {f : List TokenTree → CodeReader α} (h : ∀ ts, Confined inner (f ts))
    (hf : ∀ {u k k'} (leftOver : Option Bracket), EndsType k → EndsType k' →
      f (u ++ k) ⟨u ++ k', leftOver⟩ = f (u ++ k') ⟨u ++ k', leftOver⟩) :
    Confined inner (CodeReader.ahead >>= f) where
  swap {u v k k' leftOver after a} hk hk' hv hr := by
    have hswap := (h (u ++ k)).swap hk hk' hv hr
    rw [hf leftOver hk hk'] at hswap
    exact hswap

/-- Readers that look at the next token first are confined if they are for all tokens and do not
tell a comma from the end of the code. -/
theorem lookingHead {f : List TokenTree → CodeReader α} (h : ∀ ts, Confined inner (f ts))
    (hcons : ∀ t ts, f (t :: ts) = f [t]) (hcomma : ∀ joined, f [.mark ',' joined] = f []) :
    Confined inner (CodeReader.ahead >>= f) := by
  have hend : ∀ {k}, EndsType k → f k = f [] := by
    intro k hk
    rcases hk.cases with rfl | ⟨joined, more, rfl⟩
    · rfl
    · exact (hcons _ _).trans (hcomma joined)
  refine looking h fun {u k k'} leftOver hk hk' => congrFun ?_ _
  cases u with
  | nil => exact (hend hk).trans (hend hk').symm
  | cons t u => exact (hcons t (u ++ k)).trans (hcons t (u ++ k')).symm

/-- A look at the next token is confined as long as there is one. -/
theorem ofInnerHead {r : CodeReader α} (look : List TokenTree → α)
    (hr : ∀ c, r c = .ok (look c.rest, c)) (hcons : ∀ t ts, look (t :: ts) = look [t]) :
    Confined true r where
  swap {u v k k' leftOver after a} _ _ hv h := by
    rw [hr] at h ⊢
    obtain ⟨rfl, huv, rfl⟩ := ok_inj.1 h
    obtain rfl := List.append_cancel_right huv
    obtain ⟨t, more, rfl⟩ := List.exists_cons_of_ne_nil (hv rfl)
    exact ok_inj.2 ⟨(hcons t (more ++ k')).trans (hcons t (more ++ k)).symm, rfl, rfl⟩

instance atEnd : Confined true CodeReader.atEnd :=
  ofInnerHead List.isEmpty (fun _ => rfl) fun _ _ => rfl

instance seesComma : Confined true (CodeReader.sees ",") :=
  ofInnerHead (fun ts => (afterMarks? [','] ts).isSome) (fun _ => rfl) fun t ts => by
    cases t with
    | mark c joined =>
        simp only [afterMarks?]
        split <;> rfl
    | word | lifetime | literal | group => rfl

instance seesWord (w : String) : Confined inner (CodeReader.seesWord w) := by
  unfold CodeReader.seesWord
  exact lookingHead (fun ts => by split <;> infer_instance) (fun t ts => by cases t <;> rfl)
    fun _ => rfl

instance seesIdentifier : Confined inner CodeReader.seesIdentifier := by
  unfold CodeReader.seesIdentifier
  exact lookingHead (fun ts => by split <;> infer_instance) (fun t ts => by cases t <;> rfl)
    fun _ => rfl

instance seesLifetime : Confined inner CodeReader.seesLifetime := by
  unfold CodeReader.seesLifetime
  exact lookingHead inferInstance (fun _ _ => rfl) fun _ => rfl

instance seesGroup (b : Bracket) : Confined inner (CodeReader.seesGroup b) := by
  unfold CodeReader.seesGroup
  exact lookingHead inferInstance (fun _ _ => rfl) fun _ => rfl

/-! ### One token -/

/-- **What is read without a look at what follows** is read alike whatever that is. -/
theorem ofTaken {r : CodeReader α} (h : ∀ {c d : Cursor} {a : α}, r c = .ok (a, d) →
    ∃ w, c.rest = w ++ d.rest ∧ ∀ more, r ⟨w ++ more, c.leftOver⟩ = .ok (a, ⟨more, d.leftOver⟩)) :
    Confined inner r where
  swap {u v k k' leftOver after a} _ _ _ hr := by
    obtain ⟨w, hw, hmore⟩ := h hr
    have huv : u ++ k = (w ++ v) ++ k := hw.trans (List.append_assoc w v k).symm
    obtain rfl := List.append_cancel_right huv
    rw [List.append_assoc]
    exact hmore (v ++ k')

instance mark (s : String) : Confined inner (CodeReader.mark s) := ofTaken fun {c d a} h => by
  rw [CodeReader.mark, CodeReader.ahead_bind] at h
  cases hmore : afterMarks? s.toList c.rest with
  | none => rw [hmore] at h; cases h
  | some ts =>
      rw [hmore] at h
      cases h
      obtain ⟨w, hw, -, hafter⟩ := afterMarks?_eq_some hmore
      refine ⟨w, hw, fun more => ?_⟩
      rw [CodeReader.mark, CodeReader.ahead_bind, hafter]
      rfl

instance markIf (s : String) [Operator s] : Confined inner (CodeReader.markIf s) := by
  unfold CodeReader.markIf; infer_instance

/-- What is read of one token is read alike whatever follows it. -/
theorem ofToken {r : CodeReader α} (hnil : ∀ {leftOver a d}, r ⟨[], leftOver⟩ ≠ .ok (a, d))
    (hcons : ∀ {t ts leftOver a d}, r ⟨t :: ts, leftOver⟩ = .ok (a, d) →
      d = ⟨ts, leftOver⟩ ∧ ∀ more, r ⟨t :: more, leftOver⟩ = .ok (a, ⟨more, leftOver⟩)) :
    Confined inner r :=
  ofTaken fun {c d a} h => by
    obtain ⟨ts, leftOver⟩ := c
    cases ts with
    | nil => exact absurd h hnil
    | cons t ts =>
        obtain ⟨rfl, hmore⟩ := hcons h
        exact ⟨[t], rfl, hmore⟩

instance word (w : String) : Confined inner (CodeReader.word w) :=
  ofToken (fun h => by cases h) fun {t ts leftOver a d} h => by
    unfold CodeReader.word at h ⊢
    simp only [CodeReader.ahead_bind] at h ⊢
    cases t with
    | word v =>
        dsimp only at h ⊢
        split at h
        · rename_i hv
          cases h
          exact ⟨rfl, fun more => by rw [if_pos hv]; rfl⟩
        · cases h
    | _ => cases h

instance wordIf (w : String) : Confined inner (CodeReader.wordIf w) := by
  unfold CodeReader.wordIf; infer_instance

instance identifier : Confined inner CodeReader.identifier :=
  ofToken (fun h => by cases h) fun {t ts leftOver a d} h => by
    unfold CodeReader.identifier at h ⊢
    simp only [CodeReader.ahead_bind] at h ⊢
    cases t with
    | word v =>
        dsimp only at h ⊢
        split at h
        · cases h
        · rename_i hv
          cases h
          exact ⟨rfl, fun more => by rw [if_neg hv]; rfl⟩
    | _ => cases h

instance segment : Confined inner CodeReader.segment :=
  ofToken (fun h => by cases h) fun {t ts leftOver a d} h => by
    cases t with
    | word v => cases h; exact ⟨rfl, fun _ => rfl⟩
    | _ => cases h

instance lifetime : Confined inner CodeReader.lifetime :=
  ofToken (fun h => by cases h) fun {t ts leftOver a d} h => by
    cases t with
    | lifetime v => cases h; exact ⟨rfl, fun _ => rfl⟩
    | _ => cases h

instance anyGroup : Confined inner CodeReader.anyGroup :=
  ofToken (fun h => by cases h) fun {t ts leftOver a d} h => by
    cases t with
    | group b content => cases h; exact ⟨rfl, fun _ => rfl⟩
    | _ => cases h

instance attributes : Confined inner CodeReader.attributes := by
  unfold CodeReader.attributes; infer_instance

/-! ### Looking further ahead -/

/-- The operator `::` takes two tokens. -/
theorem exists_of_colons {u k : List TokenTree} (hk : EndsType k)
    (h : (afterMarks? "::".toList (u ++ k)).isSome = true) : ∃ s t u', u = s :: t :: u' := by
  have hcomma : ',' ∉ "::".toList := by decide
  rw [afterMarks?_append hcomma hk] at h
  obtain ⟨rest, hrest⟩ := Option.isSome_iff_exists.1 h
  obtain ⟨w, rfl, hlength, -⟩ := afterMarks?_eq_some hrest
  match w, hlength with
  | [s, t], _ => exact ⟨s, t, rest, rfl⟩

/-- Behind the operator `::`, a group is seen alike whatever follows a type. -/
theorem called_eq {u k k' : List TokenTree} (hk : EndsType k) (hk' : EndsType k')
    (h : (afterMarks? "::".toList (u ++ k')).isSome = true) :
    ((u ++ k).drop 2).head?.any (·.isGroup .round) =
      ((u ++ k').drop 2).head?.any (·.isGroup .round) := by
  obtain ⟨s, t, u', rfl⟩ := exists_of_colons hk' h
  have hend : ∀ {k : List TokenTree}, EndsType k → k.head?.any (·.isGroup .round) = false := by
    intro k hk
    rcases hk.cases with rfl | ⟨joined, more, rfl⟩ <;> rfl
  cases u' with
  | nil => exact (hend hk).trans (hend hk').symm
  | cons t' u' => rfl

/-! ### Paths -/

instance seesLiteral : Confined inner CodeReader.seesLiteral := by
  unfold CodeReader.seesLiteral
  refine looking (fun ts => by split <;> infer_instance) fun {u k k'} leftOver hk hk' => ?_
  rcases u with _ | ⟨_ | _ | _ | ⟨c, joined⟩ | _, u⟩
  case cons.mark =>
    by_cases hminus : c = '-'
    · subst hminus
      -- Only here the second token is looked at, which may be that behind a type.
      cases u with
      | nil =>
          rcases hk.cases with rfl | ⟨_, _, rfl⟩ <;> rcases hk'.cases with rfl | ⟨_, _, rfl⟩ <;> rfl
      | cons t u => rfl
    · refine congrFun ?_ _
      split <;> split <;> simp_all
  case nil =>
    rcases hk.cases with rfl | ⟨_, _, rfl⟩ <;> rcases hk'.cases with rfl | ⟨_, _, rfl⟩ <;> rfl
  all_goals rfl

instance seesConstant : Confined inner CodeReader.seesConstant := by
  unfold CodeReader.seesConstant; infer_instance

/-- A mark is read as a constant alone if it is not the sign of a number. -/
theorem constant_of_mark {c : Char} {joined : Bool} {ts : List TokenTree}
    (h : ∀ text more, c = '-' → ts ≠ .literal text :: more) (leftOver : Option Bracket) :
    CodeReader.constant ⟨.mark c joined :: ts, leftOver⟩ =
      .ok ([.mark c joined], ⟨ts, leftOver⟩) := by
  rw [CodeReader.constant, CodeReader.ahead_bind]
  change _ = (CodeReader.goTo ts >>= fun _ => Pure.pure [TokenTree.mark c joined])
    ⟨.mark c joined :: ts, leftOver⟩
  refine congrFun ?_ _
  dsimp only
  split
  · rename_i joined' text more heq
    obtain ⟨hc, hmore⟩ := List.cons_eq_cons.1 heq
    exact absurd hmore (h text more (TokenTree.mark.inj hc).1)
  · rename_i heq
    cases heq
  · rename_i heq
    cases heq
    rfl
  · rename_i heq
    cases heq

instance constant : Confined inner CodeReader.constant where
  swap {u v k k' leftOver after a} hk hk' _ h := by
    rcases u with _ | ⟨t, u⟩
    · exfalso
      rcases hk.cases with rfl | ⟨joined, more, rfl⟩
      · cases h
      · obtain ⟨-, hmore, -⟩ := ok_inj.1 h
        have hlength := congrArg List.length hmore
        simp only [List.length_append, List.length_cons] at hlength
        omega
    · cases t with
      | mark c joined =>
          by_cases hnumber : ∃ text more, c = '-' ∧ u = .literal text :: more
          · obtain ⟨text, more, rfl, rfl⟩ := hnumber
            obtain ⟨rfl, hmore, rfl⟩ := ok_inj.1 h
            obtain rfl := List.append_cancel_right hmore
            rfl
          · -- A literal behind the mark does not stand behind the type.
            have hmark : ∀ {k}, EndsType k → ∀ text more, c = '-' →
                u ++ k ≠ .literal text :: more := by
              rintro k hk text more hc happ
              cases u with
              | nil => rcases hk.cases with rfl | ⟨_, _, rfl⟩ <;> cases happ
              | cons t u =>
                  obtain ⟨rfl, -⟩ := List.cons_eq_cons.1 happ
                  exact hnumber ⟨text, u, hc, rfl⟩
            rw [List.cons_append, constant_of_mark (hmark hk)] at h
            obtain ⟨rfl, hmore, rfl⟩ := ok_inj.1 h
            obtain rfl := List.append_cancel_right hmore
            exact constant_of_mark (hmark hk') leftOver
      | word | lifetime | literal | group =>
          obtain ⟨rfl, hmore, rfl⟩ := ok_inj.1 h
          obtain rfl := List.append_cancel_right hmore
          rfl

end Confined

/-- **A layer of readers** of types and bounds that do not look past the end of a type. -/
class CodeLayer.IsConfined (l : CodeLayer) : Prop where
  type : ∀ inner plus, Confined inner (l.type plus)
  bound : ∀ inner captures constant, Confined inner (l.bound captures constant)

attribute [instance] CodeLayer.IsConfined.type CodeLayer.IsConfined.bound

namespace Confined

variable {inner : Bool} (below : CodeLayer) [below.IsForward] [below.IsConfined]

instance boundsUntil (stops : List String) [Confined true (stops.anyM CodeReader.sees)] :
    Confined true (CodeReader.boundsUntil stops below) := by
  unfold CodeReader.boundsUntil; infer_instance

/-- Whether a lifetime stands alone is seen alike whatever follows a type. -/
theorem plus_eq {u k k' : List TokenTree} (hk : EndsType k) (hk' : EndsType k') :
    ((u ++ k').head?.any (·.isLifetime) && (afterMarks? ['+'] (u ++ k).tail).isNone) =
      ((u ++ k').head?.any (·.isLifetime) && (afterMarks? ['+'] (u ++ k').tail).isNone) := by
  cases u with
  | nil => rcases hk'.cases with rfl | ⟨_, _, rfl⟩ <;> rfl
  | cons t u =>
      have hplus : ∀ {k}, EndsType k → (afterMarks? ['+'] (u ++ k)).isNone =
          (afterMarks? ['+'] u).isNone := by
        intro k hk
        rw [← Option.not_isSome, afterMarks?_append (by decide) hk, Option.not_isSome]
      simp only [List.cons_append, List.tail_cons, hplus hk, hplus hk']

theorem seesGroup_bind (b : Bracket) (f : Bool → CodeReader α) (c : Cursor) :
    (CodeReader.seesGroup b >>= f) c = f (c.rest.head?.any (·.isGroup b)) c := rfl

theorem seesLifetime_bind (f : Bool → CodeReader α) (c : Cursor) :
    (CodeReader.seesLifetime >>= f) c = f (c.rest.head?.any (·.isLifetime)) c := rfl

instance argument : Confined true (CodeReader.argument below) := by
  unfold CodeReader.argument
  dsimp only
  refine looking (fun ts => inferInstance) fun {u k k'} leftOver hk hk' => ?_
  simp only [seesLifetime_bind, plus_eq hk hk']

instance arguments : Confined inner (CodeReader.arguments below) := by
  unfold CodeReader.arguments
  exact seq inferInstance inferInstance fun front =>
    seq inferInstance inferInstance fun less => bindClosed

instance seesArguments (inExpression : Bool) :
    Confined inner (CodeReader.seesArguments inExpression) :=
  ofLook (fun ts => !inExpression && (afterMarks? "<".toList ts).isSome &&
    !(afterMarks? "<=".toList ts).isSome ||
    (afterMarks? "::".toList ts).isSome && (afterMarks? ['<'] (ts.drop 2)).isSome) (fun _ => rfl)
    fun {u k k'} hk hk' => by
      have hless : ',' ∉ "<".toList := by decide
      have hcompared : ',' ∉ "<=".toList := by decide
      have hcolons : ',' ∉ "::".toList := by decide
      rw [afterMarks?_append hless hk, afterMarks?_append hcompared hk,
        afterMarks?_append hless hk', afterMarks?_append hcompared hk']
      cases hseen : (afterMarks? "::".toList (u ++ k')).isSome with
      | false =>
          rw [afterMarks?_append hcolons hk, ← afterMarks?_append hcolons hk', hseen]
          rfl
      | true =>
          have hseen' := hseen
          rw [afterMarks?_append hcolons hk', ← afterMarks?_append hcolons hk] at hseen'
          obtain ⟨s, t, u', rfl⟩ := exists_of_colons hk' hseen
          have hafter : ∀ {k}, EndsType k →
              (afterMarks? ['<'] ((s :: t :: u' ++ k).drop 2)).isSome =
                (afterMarks? ['<'] u').isSome := fun hk => afterMarks?_append (by decide) hk
          rw [hseen', hafter hk, hafter hk']

instance pathSegment (inExpression : Bool) :
    Confined inner (CodeReader.pathSegment inExpression below) := by
  unfold CodeReader.pathSegment CodeReader.bareSegments; infer_instance

instance pathSegments (inExpression : Bool) :
    Confined inner (CodeReader.pathSegments inExpression below) := by
  unfold CodeReader.pathSegments
  refine seq (repeatedly (looking (fun ts => inferInstance) fun {u k k'} leftOver hk hk' => ?_))
    (fun _ => inferInstance) fun _ => inferInstance
  simp only [CodeReader.sees_bind]
  cases hseen : (afterMarks? "::".toList (u ++ k')).isSome with
  | false => rfl
  | true => rw [called_eq hk hk' hseen]

instance path (inExpression : Bool) : Confined inner (CodeReader.path inExpression below) := by
  unfold CodeReader.path; infer_instance

instance qualifiedPath (inExpression : Bool) :
    Confined inner (CodeReader.qualifiedPath inExpression below) := by
  unfold CodeReader.qualifiedPath; dsimp only; infer_instance

/-! ### Types -/

instance outlived : Confined true CodeReader.outlived := by
  unfold CodeReader.outlived; infer_instance

instance parameter : Confined true (CodeReader.parameter below) := by
  unfold CodeReader.parameter; dsimp only; infer_instance

instance binder : Confined inner (CodeReader.binder below) := by
  unfold CodeReader.binder; dsimp only
  exact seq inferInstance inferInstance fun front =>
    seq inferInstance inferInstance fun less => bindClosed

instance binderIf : Confined inner (CodeReader.binderIf below) := by
  unfold CodeReader.binderIf; infer_instance

instance result : Confined inner (CodeReader.result below) := by
  unfold CodeReader.result; infer_instance

instance constancy (constant : Bool) : Confined inner (CodeReader.constancy constant) := by
  unfold CodeReader.constancy; dsimp only; infer_instance

instance traitPath : Confined inner (CodeReader.traitPath below) := by
  unfold CodeReader.traitPath; dsimp only
  refine seq inferInstance inferInstance fun p =>
    looking (fun ts => inferInstance) fun {u k k'} leftOver hk hk' => ?_
  simp only [seesGroup_bind, CodeReader.sees_bind]
  cases hseen : (afterMarks? "::".toList (u ++ k')).isSome with
  | false => rfl
  | true => rw [called_eq hk hk' hseen]

instance trait (constant : Bool) : Confined inner (CodeReader.trait constant below) := by
  unfold CodeReader.trait; dsimp only; infer_instance

instance capture : Confined inner CodeReader.capture := by
  unfold CodeReader.capture; dsimp only
  exact seq inferInstance inferInstance fun front =>
    seq inferInstance inferInstance fun less => bindClosed

instance bound (captures constant : Bool) :
    Confined inner (CodeReader.bound below captures constant) := by
  unfold CodeReader.bound; dsimp only; infer_instance

instance seesBound (constant : Bool) : Confined inner (CodeReader.seesBound constant) := by
  unfold CodeReader.seesBound; dsimp only
  exact lookingHead inferInstance (fun t ts => by cases t <;> rfl) fun _ => rfl

instance bounds (plus captures constant : Bool) :
    Confined inner (CodeReader.bounds below plus captures constant) := by
  unfold CodeReader.bounds; dsimp only; infer_instance

instance objectBounds (plus : Bool) : Confined inner (CodeReader.objectBounds below plus) := by
  unfold CodeReader.objectBounds; infer_instance

instance furtherBounds : Confined inner (CodeReader.furtherBounds below) := by
  unfold CodeReader.furtherBounds; infer_instance

instance function : Confined inner (CodeReader.function below) := by
  unfold CodeReader.function
  refine seq inferInstance
    (fun front => Forward.andThen fun foreign => Forward.andThen fun ts => ?_) fun front =>
    seq inferInstance (fun foreign => Forward.andThen fun ts => ?_) fun foreign =>
      lookingHead (fun ts => ?_) (fun t ts => by cases t <;> rfl) fun _ => rfl
  all_goals
    dsimp only
    split <;> infer_instance

instance bracketed (plus : Bool) : Confined inner (CodeReader.bracketed below plus) := by
  unfold CodeReader.bracketed; dsimp only
  exact lookingHead inferInstance (fun t ts => by cases t <;> rfl) fun _ => rfl

instance ofPath (lifetimes : List TokenTree) (plus : Bool) :
    Confined inner (CodeReader.ofPath below lifetimes plus) := by
  unfold CodeReader.ofPath; dsimp only; infer_instance

instance pointer : Confined inner (CodeReader.pointer below) := by
  unfold CodeReader.pointer; dsimp only; infer_instance

instance reference : Confined inner (CodeReader.reference below) := by
  unfold CodeReader.reference; dsimp only; infer_instance

instance object (plus : Bool) : Confined inner (CodeReader.object below plus) := by
  unfold CodeReader.object; dsimp only; infer_instance

instance choice (plus : Bool) : Confined inner (CodeReader.choice below plus) := by
  unfold CodeReader.choice; infer_instance

instance seesTypePath : Confined inner CodeReader.seesTypePath := by
  unfold CodeReader.seesTypePath; infer_instance

instance seesFunction : Confined inner CodeReader.seesFunction := by
  unfold CodeReader.seesFunction; infer_instance

instance type (plus : Bool) : Confined inner (CodeReader.type below plus) := by
  unfold CodeReader.type; dsimp only; infer_instance

end Confined

namespace CodeLayer

instance isConfined_bottom : bottom.IsConfined :=
  ⟨fun _ _ => Confined.want _, fun _ _ _ => Confined.want _⟩

instance isConfined_next (below : CodeLayer) [below.IsForward] [below.IsConfined] :
    below.next.IsConfined :=
  ⟨fun _ => Confined.type below, fun _ => Confined.bound below⟩

instance isConfined_ofDepth (depth : Nat) : (ofDepth depth).IsConfined := by
  induction depth with
  | zero => exact isConfined_next bottom
  | succ depth ih => exact isConfined_next (ofDepth depth)

end CodeLayer

end MemberAccess.Source
