import MemberAccess.Proofs.Lambda.Completeness

/-!
# Only phrases are read

What a reader reads is a phrase of the grammar, and no more levels are open in it than the reader
has room for. The proof goes by layers, from the bottom up: the readers of a layer are sound if
those of the layer below are. Within a layer each loop carries a phrase that ends where the loop is
under way. For the loop over operators the phrase is of some level, and the invariant is that the
next operator does not bind more tightly than that level, since an operator that does was taken
before as part of a right operand.

## Main results

* `Layer.Sound`, `Layer.sound_ofRoom`: the readers of a layer read phrases.
* `Lambda.ofTokens_eq_ok_iff`: a lambda is read from tokens exactly if they spell it, within the
  limit of nesting.
-/

namespace MemberAccess

open Reading (plain)

variable {param : String}

/-- What is read in two parts is read in the first, and then in the second. -/
theorem Reading.exists_of_bind {α β : Type} {x : Except Rejection (α × List Token)}
    {f : α × List Token → Except Rejection β} {b : β} (h : x.bind f = .ok b) :
    ∃ a rest, x = .ok (a, rest) ∧ f (a, rest) = .ok b := by
  cases x with
  | error e => cases h
  | ok r => exact ⟨r.1, r.2, rfl, h⟩

/-! ### Paths and types -/

/-- The segments read after a path are segments of the path. -/
theorem Reader.spellsPath_of_segments {start ts rest : List Token} {before path : String}
    (hbefore : SpellsPath start before ts)
    (h : plain (segments before ts) = .ok (path, rest)) : SpellsPath start path rest := by
  rw [plain_segments] at h
  split at h
  · exact spellsPath_of_segments (.segment hbefore) h
  · cases h
  · cases h
    exact hbefore
termination_by ts.length

/-- What is read as a path is a path. -/
theorem Reader.spellsPath_of_path {ts rest : List Token} {text : String}
    (h : plain (path ts) = .ok (text, rest)) : SpellsPath ts text rest := by
  rw [path, plain_andThen] at h
  obtain ⟨name, more, hname, hmore⟩ := Reading.exists_of_bind h
  rw [ident.eq_def] at hname
  split at hname
  · cases hname
    exact spellsPath_of_segments .name hmore
  · cases hname

/-- What is read as type arguments, over a reader of types, is a list of type arguments. -/
theorem Reader.spellsType_of_typeArguments {inner : Reader String} {bound : Nat}
    (hinner : ∀ {ts rest : List Token} {text : String}, plain (inner ts) = .ok (text, rest) →
      ∃ m, m < bound ∧ SpellsType .single m ts text rest)
    {ts rest : List Token} {before text : String}
    (h : plain (typeArguments inner before ts) = .ok (text, rest)) :
    ∃ m args, m < bound ∧ text = before ++ args ∧ SpellsType .arguments m ts args rest := by
  rw [plain_typeArguments] at h
  obtain ⟨type, more, htype, hmore⟩ := Reading.exists_of_bind h
  obtain ⟨m, hm, hspells⟩ := hinner htype
  have hshort := Reading.length_lt_of_plain htype
  simp only at hmore
  split at hmore
  · rename_i more
    obtain ⟨k, args, hk, rfl, hargs⟩ := spellsType_of_typeArguments hinner hmore
    refine ⟨max m k, type ++ ", " ++ args, by omega, ?_, .more hspells hargs⟩
    simp only [String.append_assoc]
  · cases hmore
    exact ⟨m, type ++ ">", hm, String.append_assoc, .last hspells⟩
  · cases hmore
termination_by ts.length
decreasing_by
  simp only [List.length_cons] at hshort
  omega

/-- What is read as a type, over a reader of types, is a type. -/
theorem Reader.spellsType_of_type {inner : Reader String} {bound : Nat}
    (hinner : ∀ {ts rest : List Token} {text : String}, plain (inner ts) = .ok (text, rest) →
      ∃ m, m < bound ∧ SpellsType .single m ts text rest)
    {ts rest : List Token} {text : String} (h : plain (type inner ts) = .ok (text, rest)) :
    ∃ m, m < bound + 1 ∧ SpellsType .single m ts text rest := by
  rw [plain_type] at h
  obtain ⟨path, more, hpath, hmore⟩ := Reading.exists_of_bind h
  have hspells := spellsPath_of_path hpath
  simp only at hmore
  split at hmore
  · obtain ⟨m, args, hm, rfl, hargs⟩ := spellsType_of_typeArguments hinner hmore
    exact ⟨m + 1, by omega, .applied hspells hargs⟩
  · rename_i hno
    cases hmore
    refine ⟨0, Nat.succ_pos _, .bare hspells fun hless => ?_⟩
    obtain ⟨more, heq⟩ := List.head?_eq_some_iff.1 hless
    exact hno more heq

/-! ### Layers -/

/-- **A sound layer** reads phrases only, in which fewer than `bound` levels are open. Behind an
expression of a level no operator follows that it could have taken. -/
structure Layer.Sound (param : String) (bound : Nat) (layer : Layer) : Prop where
  expr {p : Nat} {ts rest : List Token} {e : Expr} (hp : p ≤ castLevel)
    (h : plain (layer.expr p ts) = .ok (e, rest)) :
    ∃ m, m + 1 < bound ∧ Derives param (.level (max p 1)) m ts e rest ∧
      (headLevel rest < p ∨ headLevel rest = 0)
  operand {ts rest : List Token} {e : Expr} (h : plain (layer.operand ts) = .ok (e, rest)) :
    ∃ m, m < bound ∧ Derives param .prefixed m ts e rest
  type {ts rest : List Token} {text : String} (h : plain (layer.type ts) = .ok (text, rest)) :
    ∃ m, m < bound ∧ SpellsType .single m ts text rest

/-- The layer that opens no level reads nothing. -/
theorem Layer.sound_bottom : bottom.Sound param 0 :=
  ⟨fun _ h => (nomatch h), fun h => (nomatch h), fun h => (nomatch h)⟩

/-! ### Operators between operands -/

/-- **The loop over operators** extends a left operand of a level at which the next operator may
follow. -/
theorem Reader.derives_of_operators {below : Layer} {bound : Nat} (hbelow : below.Sound param bound)
    {p c m : Nat} {start ts rest : List Token} {left e : Expr} (hp : p ≤ castLevel)
    (hleft : Derives param (.level c) m start left ts) (hm : m < bound) (hpc : p ≤ c)
    (hpos : 1 ≤ c) (hnext : headLevel ts ≤ c)
    (h : plain (operators below.expr below.type p left ts) = .ok (e, rest)) :
    ∃ m, m < bound ∧ Derives param (.level (max p 1)) m start e rest ∧
      (headLevel rest < p ∨ headLevel rest = 0) := by
  induction hn : ts.length using Nat.strongRecOn generalizing c m left ts with
  | ind n ih =>
      have hdone : Derives param (.level (max p 1)) m start left ts := hleft.loosen (by omega)
      rw [plain_operators] at h
      split at h
      · obtain ⟨type, after, htype, hafter⟩ := Reading.exists_of_bind h
        obtain ⟨k, hk, hspells⟩ := hbelow.type htype
        have hshort := Reading.length_lt_of_plain htype
        have hcast : Derives param (.level castLevel) (max m k) start (.cast left type) after :=
          .cast (hleft.loosen hnext) hspells
        rw [List.length_cons] at hn
        exact ih after.length (by omega) hcast (by omega) hp (by decide) (headLevel_le _) hafter rfl
      · rename_i t more _
        have hlevel : headLevel (t :: more) = t.level := rfl
        cases hop : t.binaryOp? with
        | none =>
            rw [hop] at h
            cases h
            refine ⟨m, hm, hdone, .inr ?_⟩
            rw [hlevel, Token.level.eq_def]
            split
            · contradiction
            · rw [hop]
        | some op =>
            rw [hlevel, t.level_of_binaryOp? hop] at hnext
            simp only [hop] at h
            by_cases hstop : op.level < p
            · rw [if_pos hstop] at h
              cases h
              exact ⟨m, hm, hdone, .inl (by rwa [hlevel, t.level_of_binaryOp? hop])⟩
            · rw [if_neg hstop] at h
              obtain ⟨right, after, hright, hafter⟩ := Reading.exists_of_bind h
              obtain ⟨k, hk, hphrase, hbehind⟩ := hbelow.expr op.level_lt hright
              have hshort := Reading.length_lt_of_plain hright
              have hbinary : Derives param (.level op.level) (max m (k + 1)) start
                  (.binary op left right) after :=
                .binary hop (hleft.loosen hnext) (hphrase.loosen (by omega))
              rw [List.length_cons] at hn
              exact ih after.length (by omega) hbinary (by omega) (by omega) op.level_pos
                (by omega) hafter rfl
      · cases h
        exact ⟨m, hm, hdone, .inr rfl⟩

/-- The reader of expressions over a sound layer reads phrases. -/
theorem Layer.Sound.derives_of_expr {below : Layer} {bound : Nat}
    (hbelow : below.Sound param bound) {p : Nat} {ts rest : List Token} {e : Expr}
    (hp : p ≤ castLevel) (h : plain ((below.next param).expr p ts) = .ok (e, rest)) :
    ∃ m, m < bound ∧ Derives param (.level (max p 1)) m ts e rest ∧
      (headLevel rest < p ∨ headLevel rest = 0) := by
  rw [plain_expr] at h
  obtain ⟨left, more, hleft, hmore⟩ := Reading.exists_of_bind h
  obtain ⟨m, hm, hphrase⟩ := hbelow.operand hleft
  exact Reader.derives_of_operators hbelow hp (.ofPrefixed hphrase) hm hp (by decide)
    (headLevel_le _) hmore

/-! ### Operands -/

/-- What is read before a symbol that closes it is closed by the symbol. -/
theorem Reader.exists_of_closed {α : Type} {inner : Reader α} {close : Symbol}
    {ts rest : List Token} {e : α} (h : plain (closed inner close ts) = .ok (e, rest)) :
    plain (inner ts) = .ok (e, .symbol close :: rest) := by
  rw [plain_closed] at h
  obtain ⟨value, more, hvalue, hmore⟩ := Reading.exists_of_bind h
  cases more with
  | nil => cases hmore
  | cons t more =>
      rw [symbol] at hmore
      by_cases ht : t = .symbol close
      · rw [if_pos ht] at hmore
        cases hmore
        exact ht ▸ hvalue
      · rw [if_neg ht] at hmore
        cases hmore

section

variable {inner : Reader Expr} {bound : Nat}

variable (hinner : ∀ {ts rest : List Token} {e : Expr}, plain (inner ts) = .ok (e, rest) →
  ∃ m, m < bound ∧ Derives param (.level 1) m ts e rest)

include hinner

/-- What is read as arguments is a list of arguments. -/
theorem Reader.derives_of_arguments {ts rest : List Token} {before args : List Expr}
    (h : plain (arguments inner before ts) = .ok (args, rest)) :
    ∃ m more, m ≤ bound ∧ args = before.reverse ++ more ∧
      Derives param .arguments m ts more rest := by
  induction hn : ts.length using Nat.strongRecOn generalizing before ts with
  | ind n ih =>
      rw [plain_arguments] at h
      split at h
      · cases h
        exact ⟨0, [], Nat.zero_le _, (List.append_nil _).symm, .noArgument⟩
      · obtain ⟨arg, after, harg, hafter⟩ := Reading.exists_of_bind h
        obtain ⟨m, hm, hphrase⟩ := hinner harg
        have hshort := Reading.length_lt_of_plain harg
        simp only at hafter
        split at hafter
        · cases hafter
          exact ⟨m + 1, [arg], hm, List.reverse_cons, .lastArgument hphrase⟩
        · rename_i more
          rw [List.length_cons] at hshort
          obtain ⟨k, args, hk, rfl, hargs⟩ := ih more.length (by omega) hafter rfl
          refine ⟨max (m + 1) k, arg :: args, by omega, ?_, .argument hphrase hargs⟩
          rw [List.reverse_cons, List.append_assoc, List.singleton_append]
        · cases hafter

/-- What is read as an atom is an atom. -/
theorem Reader.derives_of_atom {ts rest : List Token} {e : Expr}
    (h : plain (atom param inner ts) = .ok (e, rest)) :
    ∃ m, m ≤ bound ∧ Derives param .atom m ts e rest := by
  rw [plain_atom] at h
  split at h
  · cases h
    exact ⟨0, Nat.zero_le _, .constant⟩
  · obtain ⟨m, hm, hphrase⟩ := hinner (exists_of_closed h)
    exact ⟨m + 1, hm, .parens hphrase⟩
  · rw [plain_named] at h
    obtain ⟨path, more, hpath, hmore⟩ := Reading.exists_of_bind h
    have hspells := spellsPath_of_path hpath
    simp only at hmore
    split at hmore
    · rename_i more
      cases hargs : plain (arguments inner [] more) with
      | error rejection =>
          rw [hargs] at hmore
          cases hmore
      | ok args =>
          rw [hargs] at hmore
          cases hmore
          obtain ⟨m, as, hm, heq, hphrase⟩ := derives_of_arguments hinner hargs
          rw [heq]
          exact ⟨m, hm, .call hspells hphrase⟩
    · cases hmore
      rw [Expr.ofName]
      by_cases hparam : param ≠ "_" ∧ path = param
      · obtain ⟨hbinds, rfl⟩ := hparam
        rw [if_pos ⟨hbinds, rfl⟩]
        exact ⟨0, Nat.zero_le _, .parameter hspells hbinds⟩
      · rw [if_neg hparam]
        refine ⟨0, Nat.zero_le _, .free hspells ?_⟩
        by_cases hbinds : param = "_"
        · exact .inl hbinds
        · exact .inr fun heq => hparam ⟨hbinds, heq⟩
  · cases h

/-- The loop over what is applied extends what it is applied to. -/
theorem Reader.derives_of_postfixes {m : Nat} {start ts rest : List Token} {left e : Expr}
    (hleft : Derives param .applied m start left ts) (hm : m ≤ bound)
    (h : plain (postfixes inner left ts) = .ok (e, rest)) :
    ∃ m, m ≤ bound ∧ Derives param .applied m start e rest := by
  induction hn : ts.length using Nat.strongRecOn generalizing m left ts with
  | ind n ih =>
      rw [plain_postfixes] at h
      split at h
      · obtain ⟨args, after, hargs, hafter⟩ := Reading.exists_of_bind h
        obtain ⟨k, args, hk, rfl, hphrase⟩ := derives_of_arguments hinner hargs
        have hshort := Reading.length_lt_of_plain hargs
        simp only [List.length_cons] at hn
        exact ih after.length (by omega) (.method hleft hphrase) (by omega) hafter rfl
      · simp only [List.length_cons] at hn
        exact ih _ (by omega) (.member hleft) hm h rfl
      · cases h
      · obtain ⟨position, after, hposition, hafter⟩ := Reading.exists_of_bind h
        obtain ⟨k, hk, hphrase⟩ := hinner (exists_of_closed hposition)
        have hshort := Reading.length_lt_of_plain hposition
        simp only [List.length_cons] at hn
        exact ih after.length (by omega) (.index hleft hphrase) (by omega) hafter rfl
      · cases h
        exact ⟨m, hm, hleft⟩

/-- What is read as an atom and what is applied to it is that. -/
theorem Reader.derives_of_applied {ts rest : List Token} {e : Expr}
    (h : plain (applied param inner ts) = .ok (e, rest)) :
    ∃ m, m ≤ bound ∧ Derives param .applied m ts e rest := by
  rw [plain_applied] at h
  obtain ⟨left, more, hleft, hmore⟩ := Reading.exists_of_bind h
  obtain ⟨m, hm, hphrase⟩ := derives_of_atom hinner hleft
  exact derives_of_postfixes hinner (.ofAtom hphrase) hm hmore

end

/-! ### All layers -/

/-- The reader of operands over a sound layer reads phrases. -/
theorem Layer.Sound.derives_of_operand {below : Layer} {bound : Nat}
    (hbelow : below.Sound param bound) {ts rest : List Token} {e : Expr}
    (h : plain ((below.next param).operand ts) = .ok (e, rest)) :
    ∃ m, m ≤ bound ∧ Derives param .prefixed m ts e rest := by
  have hinner : ∀ {ts rest : List Token} {e : Expr},
      plain ((below.next param).expr 0 ts) = .ok (e, rest) →
        ∃ m, m < bound ∧ Derives param (.level 1) m ts e rest := by
    intro ts rest e hexpr
    obtain ⟨m, hm, hphrase, -⟩ := hbelow.derives_of_expr (Nat.zero_le _) hexpr
    exact ⟨m, hm, hphrase⟩
  have happlied : ∀ {ts : List Token},
      plain (Reader.applied param ((below.next param).expr 0) ts) = .ok (e, rest) →
        ∃ m, m ≤ bound ∧ Derives param .prefixed m ts e rest := by
    intro ts happlied
    obtain ⟨m, hm, hphrase⟩ := Reader.derives_of_applied hinner happlied
    exact ⟨m, hm, .ofApplied hphrase⟩
  cases ts with
  | nil => exact happlied h
  | cons t more =>
      rw [next, Reader.plain_operand] at h
      cases hop : t.unaryOp? with
      | none =>
          rw [hop] at h
          exact happlied h
      | some op =>
          rw [hop] at h
          cases hoperand : plain (below.operand more) with
          | error rejection =>
              simp only [hoperand] at h
              cases h
          | ok operand =>
              simp only [hoperand] at h
              cases h
              obtain ⟨m, hm, hphrase⟩ := hbelow.operand hoperand
              exact ⟨m + 1, hm, .unary hop hphrase⟩

/-- **A layer over a sound layer is sound.** -/
theorem Layer.Sound.next {below : Layer} {bound : Nat} (hbelow : below.Sound param bound) :
    (below.next param).Sound param (bound + 1) := by
  refine ⟨fun hp h => ?_, fun h => ?_, fun h => ?_⟩
  · obtain ⟨m, hm, hphrase⟩ := hbelow.derives_of_expr hp h
    exact ⟨m, by omega, hphrase⟩
  · obtain ⟨m, hm, hphrase⟩ := hbelow.derives_of_operand h
    exact ⟨m, by omega, hphrase⟩
  · exact Reader.spellsType_of_type hbelow.type h

/-- **The layers are sound.** -/
theorem Layer.sound_ofRoom (room : Nat) : (ofRoom param room).Sound param (room + 1) := by
  induction room with
  | zero => exact sound_bottom.next
  | succ room ih => exact ih.next

/-! ### Lambdas -/

/-- What is read as the head of a lambda is one of its two forms. -/
theorem Reader.head_cases {ts rest : List Token} {name : String}
    (h : plain (head ts) = .ok (name, rest)) :
    ts = .symbol .pipe :: .ident name :: .symbol .pipe :: rest ∨
      ts = .ident name :: .symbol .arrow :: rest := by
  rw [head.eq_def] at h
  split at h
  · rename_i more
    rw [Reading.plain_map_widen] at h
    have hident := exists_of_closed h
    rw [ident.eq_def] at hident
    split at hident
    · cases hident
      exact .inl rfl
    · cases hident
  · cases h
    exact .inr rfl
  · cases h

/-- What is read as a lambda is spelled by the tokens, within the limit. -/
theorem Lambda.spells_of_ofTokens {ts : List Token} {l : Lambda} (h : ofTokens ts = .ok l) :
    ∃ m, m ≤ nestingLimit ∧ Spells m ts l := by
  rw [ofTokens_eq] at h
  obtain ⟨name, more, hhead, hmore⟩ := Reading.exists_of_bind h
  obtain ⟨body, rest, hbody, hrest⟩ := Reading.exists_of_bind hmore
  obtain ⟨m, hm, hphrase, -⟩ :=
    (Layer.sound_ofRoom nestingLimit).expr (Nat.zero_le castLevel) hbody
  cases rest with
  | cons t rest => cases hrest
  | nil =>
      cases hrest
      refine ⟨m + 1, Nat.le_of_lt_succ hm, ?_⟩
      rcases Reader.head_cases hhead with rfl | rfl
      · exact .bars hphrase
      · exact .arrow hphrase

/-- An outcome that fits wherever there is room for it tells how much room it needs. -/
theorem Within.unique {α : Type} {m k : Nat} {x : Nat → Except Rejection α} {a b : α}
    (ha : ∀ room, Within m room (x room) (.ok a)) (hb : ∀ room, Within k room (x room) (.ok b)) :
    m = k ∧ a = b := by
  have hle : ∀ {m k : Nat} {a b : α}, (∀ room, Within m room (x room) (.ok a)) →
      (∀ room, Within k room (x room) (.ok b)) → m ≤ k := by
    intro m k a b ha hb
    refine Nat.le_of_not_lt fun hlt => ?_
    obtain ⟨rest, herror⟩ := (ha k).exceeds hlt
    rw [(hb k).fits (Nat.le_refl k)] at herror
    cases herror
  obtain rfl : m = k := Nat.le_antisymm (hle ha hb) (hle hb ha)
  have heq := ((ha m).fits (Nat.le_refl m)).symm.trans ((hb m).fits (Nat.le_refl m))
  exact ⟨rfl, Except.ok.inj heq⟩

/-- What tokens spell is unique, and so is the number of levels. -/
theorem Lambda.Spells.unique {m k : Nat} {ts : List Token} {l l' : Lambda} (h : Spells m ts l)
    (h' : Spells k ts l') : m = k ∧ l = l' := by
  have hbody : ∀ {param : String} {ts : List Token} {m k : Nat} {body body' : Expr},
      Derives param (.level 1) m ts body [] → Derives param (.level 1) k ts body' [] →
        m = k ∧ body = body' := by
    intro param ts m k body body' hm hk
    obtain ⟨hlevels, htree⟩ := Within.unique hm.reads_body hk.reads_body
    exact ⟨Nat.succ.inj hlevels, congrArg Prod.fst htree⟩
  cases h with
  | bars hm =>
      cases h' with
      | bars hk =>
          obtain ⟨rfl, rfl⟩ := hbody hm hk
          exact ⟨rfl, rfl⟩
  | arrow hm =>
      cases h' with
      | arrow hk =>
          obtain ⟨rfl, rfl⟩ := hbody hm hk
          exact ⟨rfl, rfl⟩

/-- The tokens of `|x| -x.a as T<u> < (x)`. -/
def Lambda.castTokens : List Token :=
  [.symbol .pipe, .ident "x", .symbol .pipe, .symbol .minus, .ident "x", .symbol .dot, .ident "a",
    .keywordAs, .ident "T", .symbol .less, .ident "u", .symbol .greater, .symbol .less,
    .symbol .openParen, .ident "x", .symbol .closeParen]

/-- The lambda `|x| ((-x.a) as T<u>) < x`. -/
def Lambda.castLambda : Lambda :=
  ⟨"x", .binary .lt (.cast (.unary .negate (.member (.parameter "x") "a")) "T<u>")
    (.parameter "x")⟩

/-- **A lambda is read from tokens exactly if they spell it,** and no more levels are open in it
than may be. Whatever tokens spell is unique. -/
theorem Lambda.ofTokens_eq_ok_iff (ts : List Token) (l : Lambda) :
    (ofTokens ts = .ok l ↔ ∃ m, m ≤ nestingLimit ∧ Spells m ts l) ∧
      ∀ {m k : Nat} {l' : Lambda}, Spells m ts l → Spells k ts l' → m = k ∧ l = l' := by
  refine ⟨⟨spells_of_ofTokens, ?_⟩, Spells.unique⟩
  rintro ⟨m, hm, hspells⟩
  exact hspells.reads.fits hm

/-- A cast binds less tightly than a sign, and takes type arguments before it is compared. -/
theorem Lambda.spells_castTokens :
    ∃ m, m ≤ nestingLimit ∧ Spells m castTokens castLambda ∧
      ∀ {k l'}, Spells k castTokens l' → m = k ∧ castLambda = l' := by
  have hread : ofTokens castTokens = .ok castLambda := by cbv
  obtain ⟨m, hm, hspells⟩ := (ofTokens_eq_ok_iff castTokens castLambda).1.1 hread
  exact ⟨m, hm, hspells, (ofTokens_eq_ok_iff castTokens castLambda).2 hspells⟩

end MemberAccess
