import MemberAccess.Proofs.Lambda.Grammar
import MemberAccess.Proofs.Lambda.Reading

/-!
# Every phrase is read

A phrase of the grammar that opens no more levels than there is room for is read with its tree, and
a phrase that opens more is rejected as nested too deeply. The grammar is left recursive where the
readers loop. So the phrases of a level are compared with loops that are under way: reading an
expression from the start of the phrase is the same as going on behind the phrase, with its tree
as the left operand. What comes behind a phrase must not be taken by a reader for a part of it;
tokens bind more or less tightly to what is before them, and it is enough that the next token does
not bind more tightly than the phrase.

## Main definitions

* `Within`: the outcome of a reader with room for a number of levels.
* `Token.tightness`: how tightly a token binds to what is before it.

## Main results

* `SpellsType.reads`, `Derives.reads`: types and expressions.
* `Lambda.Spells.reads`: lambdas.
-/

namespace MemberAccess

open Reading (plain)

/-! ### Room for levels -/

/-- **The outcome `x` of a reader** that has room for `room` levels where `levels` are needed: it is
`y` if they fit, and else a rejection, because too many levels are open. -/
structure Within {α : Type} (levels room : Nat) (x y : Except Rejection α) : Prop where
  fits (h : levels ≤ room) : x = y
  exceeds (h : room < levels) : ∃ rest, x = .error ⟨rest, .tooDeep⟩

namespace Within

variable {α β : Type} {m k room : Nat}

/-- An outcome that needs no room. -/
theorem of_eq {x y : Except Rejection α} (h : x = y) : Within 0 room x y :=
  ⟨fun _ => h, fun h => absurd h (Nat.not_lt_zero _)⟩

/-- An outcome may be gone on with. -/
theorem bind {x y : Except Rejection α} (h : Within m room x y)
    (f : α → Except Rejection β) : Within m room (x.bind f) (y.bind f) := by
  refine ⟨fun hm => by rw [h.fits hm], fun hm => ?_⟩
  obtain ⟨rest, hx⟩ := h.exceeds hm
  exact ⟨rest, by rw [hx]; rfl⟩

/-- What is made of an outcome needs no more room. -/
theorem map {x y : Except Rejection α} (h : Within m room x y) (f : α → β) :
    Within m room (x.map f) (y.map f) := by
  refine ⟨fun hm => by rw [h.fits hm], fun hm => ?_⟩
  obtain ⟨rest, hx⟩ := h.exceeds hm
  exact ⟨rest, by rw [hx]; rfl⟩

/-- Both of two outcomes, one after the other, need their room. -/
theorem trans {x y z : Except Rejection α} (hx : Within m room x y) (hy : Within k room y z) :
    Within (max m k) room x z := by
  refine ⟨fun h => ?_, fun h => ?_⟩
  · rw [hx.fits (by omega), hy.fits (by omega)]
  · by_cases hm : m ≤ room
    · rw [hx.fits hm]
      exact hy.exceeds (by omega)
    · exact hx.exceeds (by omega)

/-- What follows needs no room. -/
theorem trans_eq {x y z : Except Rejection α} (hx : Within m room x y) (hy : y = z) :
    Within m room x z := hy ▸ hx

end Within

namespace Layer

variable {param : String}

/-- The layer below the one with room for a number of levels. -/
def below (param : String) : Nat → Layer
  | 0 => bottom
  | room + 1 => ofRoom param room

/-- Each layer is made of the one below it. -/
theorem ofRoom_eq (room : Nat) : ofRoom param room = (below param room).next param := by
  cases room <;> rfl

/-- The operands of a layer contain operands of the layer below, and expressions of their own. -/
theorem operand_ofRoom (room : Nat) :
    (ofRoom param room).operand =
      Reader.operand param (below param room).operand ((ofRoom param room).expr 0) := by
  rw [ofRoom_eq]
  rfl

/-- The types of a layer contain types of the layer below. -/
theorem type_ofRoom (room : Nat) :
    (ofRoom param room).type = Reader.type (below param room).type := by
  rw [ofRoom_eq]
  rfl

/-- An expression is an operand of the layer below, and the operators behind it. -/
theorem plain_expr_ofRoom (room p : Nat) (ts : List Token) :
    plain ((ofRoom param room).expr p ts) =
      (plain ((below param room).operand ts)).bind fun r =>
        plain (Reader.operators (below param room).expr (below param room).type p r.1 r.2) := by
  rw [ofRoom_eq, plain_expr]

/-- **A reader that opens a level** needs room for one more than it needs in the layer below. -/
theorem within_below {α : Type} {m : Nat} {y : Except Rejection α}
    (x : Layer → Except Rejection α) (hbottom : ∃ rest, x bottom = .error ⟨rest, .tooDeep⟩)
    (h : ∀ room, Within m room (x (ofRoom param room)) y) (room : Nat) :
    Within (m + 1) room (x (below param room)) y := by
  cases room with
  | zero => exact ⟨fun h => absurd h (Nat.not_succ_le_zero _), fun _ => hbottom⟩
  | succ room => exact ⟨fun hm => (h room).fits (by omega), fun hm => (h room).exceeds (by omega)⟩

end Layer

/-! ### What comes behind a phrase -/

/-- **How tightly a token binds** to what is before it. A token that is no operator ends every
operand. -/
def Token.tightness : Token → Nat
  | .symbol .colons => 10
  | .symbol .openParen => 9
  | .symbol .dot | .symbol .openBracket => 8
  | t => t.level

/-- How tightly the first of some tokens binds to what is before them. -/
def tightness : List Token → Nat
  | [] => 0
  | t :: _ => t.tightness

theorem tightness_cons_le {t : Token} {ts : List Token} {n : Nat} (h : t.tightness ≤ n) :
    tightness (t :: ts) ≤ n := h

/-- A binary operator binds as tightly as its level says. -/
theorem Token.tightness_of_binaryOp? {t : Token} {op : BinaryOp} (h : t.binaryOp? = some op) :
    t.tightness = op.level := by
  rw [← t.level_of_binaryOp? h]
  cases t with
  | symbol s => cases s <;> first | rfl | cases h
  | _ => rfl

/-- Behind the last segment of a path. -/
theorem Reader.plain_segments_stop {path : String} {rest : List Token} (h : tightness rest ≤ 9) :
    plain (segments path rest) = .ok (path, rest) := by
  rw [plain_segments]
  split
  · simp only [tightness, Token.tightness] at h; omega
  · simp only [tightness, Token.tightness] at h; omega
  · rfl

/-- Behind what is applied to an atom. -/
theorem Reader.plain_postfixes_stop {inner : Reader Expr} {left : Expr} {rest : List Token}
    (h : tightness rest ≤ 7) : plain (postfixes inner left rest) = .ok (left, rest) := by
  rw [plain_postfixes]
  split
  · simp only [tightness, Token.tightness] at h; omega
  · simp only [tightness, Token.tightness] at h; omega
  · simp only [tightness, Token.tightness] at h; omega
  · simp only [tightness, Token.tightness] at h; omega
  · rfl

/-- A member is taken where no arguments follow its name. -/
theorem Reader.plain_postfixes_member {inner : Reader Expr} {left : Expr} {name : String}
    {rest : List Token} (h : tightness rest ≤ 8) :
    plain (postfixes inner left (.symbol .dot :: .ident name :: rest)) =
      plain (postfixes inner (.member left name) rest) := by
  rw [plain_postfixes]
  split
  · rename_i heq
    cases heq
    simp only [tightness, Token.tightness] at h
    omega
  · rename_i heq
    cases heq
    rfl
  · rename_i hno heq
    cases heq
    exact absurd rfl (hno name _)
  · rename_i heq
    cases heq
  · rename_i hno _ _
    exact absurd rfl (hno name _)

/-- Behind the operand of an operator that binds at least as tightly as what comes. -/
theorem Reader.plain_operators_stop {right : Nat → Reader Expr} {castType : Reader String}
    {p : Nat} {left : Expr} {rest : List Token} (hp : p ≤ castLevel)
    (h : tightness rest < p ∨ tightness rest = 0) :
    plain (operators right castType p left rest) = .ok (left, rest) := by
  rw [plain_operators]
  split
  · simp only [tightness, Token.tightness, Token.level, castLevel] at h hp; omega
  · rename_i t rest _
    cases hop : t.binaryOp? with
    | none => rfl
    | some op =>
        have hlevel : op.level < p := by
          have := Token.tightness_of_binaryOp? hop
          have hpos := op.level_pos
          simp only [tightness] at h
          omega
        simp only [hlevel, if_true]
  · rfl

/-- An argument is read where the list is not closed. -/
theorem Reader.plain_arguments_open (inner : Reader Expr) (args : List Expr) {ts : List Token}
    (h : ts.head? ≠ some (.symbol .closeParen)) :
    plain (arguments inner args ts) =
      (plain (inner ts)).bind fun arg =>
        match arg.2 with
        | .symbol .closeParen :: rest => .ok ((arg.1 :: args).reverse, rest)
        | .symbol .comma :: rest => plain (arguments inner (arg.1 :: args) rest)
        | rest => .error (.expected (.symbol .comma) rest) := by
  rw [plain_arguments]
  split
  · exact absurd rfl h
  · rfl

/-- An operator of a level that the loop takes is followed by its right operand. -/
theorem Reader.plain_operators_binary (right : Nat → Reader Expr) (castType : Reader String)
    {p : Nat} (left : Expr) {t : Token} {op : BinaryOp} (ht : t.binaryOp? = some op)
    (hp : p ≤ op.level) (rest : List Token) :
    plain (operators right castType p left (t :: rest)) =
      (plain (right (op.level + 1) rest)).bind fun e =>
        plain (operators right castType p (.binary op left e.1) e.2) := by
  rw [plain_operators]
  split
  · rename_i heq
    cases heq
    cases ht
  · rename_i heq
    cases heq
    simp only [ht, if_neg (Nat.not_lt.2 hp)]
  · rename_i heq
    cases heq

/-! ### Paths and types -/

/-- A path is read up to where it ends, or further. -/
theorem SpellsPath.plain_path {ts rest : List Token} {path : String}
    (h : SpellsPath ts path rest) :
    plain (Reader.path ts) = plain (Reader.segments path rest) := by
  induction h with
  | name =>
      rw [Reader.path, Reader.plain_andThen, Reader.plain_ident]
      rfl
  | segment _ ih => rw [ih, Reader.plain_segments]

/-- A path is read where nothing binds to it. -/
theorem SpellsPath.reads {ts rest : List Token} {path : String} (h : SpellsPath ts path rest)
    (hrest : tightness rest ≤ 9) : plain (Reader.path ts) = .ok (path, rest) := by
  rw [h.plain_path, Reader.plain_segments_stop hrest]

/-- **How the parts of a type are read:** a type by the reader of a layer, arguments after any text
by a loop over the types of the layer. -/
def TypePart.Reads (param : String) (levels : Nat) (ts : List Token) (text : String)
    (rest : List Token) : TypePart → Prop
  | single => tightness rest ≤ 9 → ∀ room,
      Within levels room (plain ((Layer.ofRoom param room).type ts)) (.ok (text, rest))
  | arguments => ∀ before room,
      Within levels room
        (plain (Reader.typeArguments (Layer.ofRoom param room).type before ts))
        (.ok (before ++ text, rest))

/-- **Types are read.** -/
theorem SpellsType.reads (param : String) {part : TypePart} {m : Nat} {ts rest : List Token}
    {text : String} (h : SpellsType part m ts text rest) : part.Reads param m ts text rest := by
  induction h with
  | @bare ts rest path hpath hrest =>
      intro htight room
      refine .of_eq ?_
      rw [Layer.type_ofRoom, Reader.plain_type, hpath.reads htight]
      cases rest with
      | nil => rfl
      | cons t rest =>
          simp only [Except.bind]
          split
          · rename_i heq
            cases heq
            exact absurd rfl hrest
          · rfl
  | @applied m ts more rest path args hpath _ ih =>
      intro _ room
      rw [Layer.type_ofRoom, Reader.plain_type,
        hpath.reads (tightness_cons_le (by decide))]
      refine Layer.within_below
        (fun layer => plain (Reader.typeArguments layer.type (path ++ "<") more)) ?_
        (fun room => ?_) room
      · exact ⟨more, by rw [Reader.plain_typeArguments]; rfl⟩
      · exact ih _ room
  | @last m ts rest type _ ih =>
      intro before room
      rw [Reader.plain_typeArguments, ← String.append_assoc]
      exact (ih (tightness_cons_le (by decide)) room).bind _
  | @more m k ts more rest type args _ _ ih ihargs =>
      intro before room
      rw [Reader.plain_typeArguments]
      have htext : before ++ (type ++ ", " ++ args) = before ++ type ++ ", " ++ args := by
        simp only [String.append_assoc]
      rw [htext]
      exact ((ih (tightness_cons_le (by decide)) room).bind _).trans (ihargs _ room)

/-! ### Expressions -/

/-- **How the phrases of a nonterminal are read.** Where the grammar is left recursive, reading from
the start of a phrase is going on behind it. -/
def Nonterminal.Reads (param : String) (levels : Nat) (ts : List Token) :
    (n : Nonterminal) → n.Tree → List Token → Prop
  | arguments, args, rest => ∀ before room,
      Within levels room
        (plain (Reader.arguments ((Layer.ofRoom param room).expr 0) before ts))
        (.ok (before.reverse ++ args, rest))
  | atom, e, rest => tightness rest ≤ 8 → ∀ room,
      Within levels room (plain (Reader.atom param ((Layer.ofRoom param room).expr 0) ts))
        (.ok (e, rest))
  | applied, e, rest => tightness rest ≤ 8 → ∀ room,
      Within levels room (plain (Reader.applied param ((Layer.ofRoom param room).expr 0) ts))
        (plain (Reader.postfixes ((Layer.ofRoom param room).expr 0) e rest))
  | prefixed, e, rest => tightness rest ≤ 7 → ∀ room,
      Within levels room (plain ((Layer.ofRoom param room).operand ts)) (.ok (e, rest))
  | level k, e, rest => tightness rest ≤ k → ∀ p, p ≤ k → ∀ room,
      Within (levels + 1) room (plain ((Layer.ofRoom param room).expr p ts))
        (plain (Reader.operators (Layer.below param room).expr (Layer.below param room).type p e
          rest))

/-- An expression is read up to a token that is no operator. -/
theorem Nonterminal.Reads.expr {param : String} {m : Nat} {t : Token} {ts rest : List Token}
    {e : Expr} (h : Nonterminal.Reads param m ts (.level 1) e (t :: rest))
    (ht : t.tightness = 0) (room : Nat) :
    Within (m + 1) room (plain ((Layer.ofRoom param room).expr 0 ts)) (.ok (e, t :: rest)) := by
  have hread := h (tightness_cons_le (by omega)) 0 (by decide) room
  have hstop : tightness (t :: rest) = 0 := ht
  rwa [Reader.plain_operators_stop (by decide) (.inr hstop)] at hread

/-- A phrase before the symbol that closes it. -/
theorem Within.closed {α : Type} {m room : Nat} {inner : Reader α} {close : Symbol}
    {ts rest : List Token} {a : α}
    (h : Within m room (plain (inner ts)) (.ok (a, .symbol close :: rest))) :
    Within m room (plain (Reader.closed inner close ts)) (.ok (a, rest)) := by
  rw [Reader.plain_closed]
  refine (h.bind _).trans_eq ?_
  simp only [Except.bind, Reader.plain_symbol, Except.map]

/-- An atom that begins with a path is a name or a call. -/
theorem SpellsPath.plain_atom {ts rest : List Token} {path : String}
    (h : SpellsPath ts path rest) (param : String) (inner : Reader Expr) :
    plain (Reader.atom param inner ts) = plain (Reader.named param inner ts) := by
  obtain ⟨name, more, rfl⟩ := h.starts
  rw [Reader.plain_atom]

/-- A path that nothing binds to is a name. -/
theorem SpellsPath.plain_name {ts rest : List Token} {path : String}
    (h : SpellsPath ts path rest) (hrest : tightness rest ≤ 8) (param : String)
    (inner : Reader Expr) :
    plain (Reader.atom param inner ts) = .ok (.ofName param path, rest) := by
  rw [h.plain_atom, Reader.plain_named, h.reads (by omega)]
  simp only [Except.bind]
  split
  · simp only [tightness, Token.tightness] at hrest
    omega
  · rfl

/-- A phrase of a level does not begin as a list of arguments ends. -/
theorem Derives.head?_ne_closeParen {param : String} {k m : Nat} {ts rest : List Token} {e : Expr}
    (h : Derives param (.level k) m ts e rest) : ts.head? ≠ some (.symbol .closeParen) := by
  obtain ⟨t, more, rfl, ht⟩ := h.starts
  rintro heq
  obtain rfl := Option.some.inj heq
  rcases ht with ht | ht <;> cases ht

/-- **Phrases of expressions are read.** -/
theorem Derives.reads {param : String} {n : Nonterminal} {m : Nat} {ts rest : List Token}
    {tree : n.Tree} (h : Derives param n m ts tree rest) : n.Reads param m ts tree rest := by
  induction h with
  | noArgument =>
      intro before room
      refine .of_eq ?_
      rw [Reader.plain_arguments, List.append_nil]
  | @lastArgument m ts rest arg harg ih =>
      intro before room
      rw [Reader.plain_arguments_open _ _ harg.head?_ne_closeParen, ← List.reverse_cons]
      exact (ih.expr rfl room).bind _
  | @argument m k ts more rest arg args harg hargs ih ihargs =>
      intro before room
      rw [Reader.plain_arguments_open _ _ harg.head?_ne_closeParen]
      have hmore := ihargs (arg :: before) room
      rw [List.reverse_cons, List.append_assoc, List.singleton_append] at hmore
      exact ((ih.expr rfl room).bind _).trans hmore
  | constant =>
      intro _ room
      exact .of_eq rfl
  | parameter hpath hbinds =>
      intro hrest room
      refine .of_eq ?_
      rw [hpath.plain_name hrest, Expr.ofName, if_pos ⟨hbinds, rfl⟩]
  | free hpath hfree =>
      intro hrest room
      refine .of_eq ?_
      rw [hpath.plain_name hrest, Expr.ofName, if_neg ?_]
      rintro ⟨hbinds, heq⟩
      exact hfree.elim hbinds (· heq)
  | call hpath hargs ih =>
      intro hrest room
      rw [hpath.plain_atom, Reader.plain_named, hpath.reads (tightness_cons_le (by decide))]
      exact (ih [] room).map _
  | parens hinner ih =>
      intro _ room
      rw [Reader.plain_atom]
      exact (ih.expr rfl room).closed
  | ofAtom h ih =>
      intro hrest room
      rw [Reader.plain_applied]
      exact (ih hrest room).bind _
  | member htarget ih =>
      intro hrest room
      refine (ih (tightness_cons_le (by decide)) room).trans_eq ?_
      exact Reader.plain_postfixes_member hrest
  | method hreceiver hargs ih ihargs =>
      intro hrest room
      refine (ih (tightness_cons_le (by decide)) room).trans ?_
      rw [Reader.plain_postfixes]
      exact (ihargs [] room).bind _
  | index htarget hposition ih ihposition =>
      intro hrest room
      refine (ih (tightness_cons_le (by decide)) room).trans ?_
      rw [Reader.plain_postfixes]
      exact ((ihposition.expr rfl room).closed).bind _
  | @ofApplied m ts rest e h ih =>
      intro hrest room
      obtain ⟨t, more, rfl, ht⟩ := h.starts
      have hop : t.unaryOp? = none := by
        cases t with
        | symbol s => cases s <;> first | rfl | cases ht
        | _ => rfl
      rw [Layer.operand_ofRoom, Reader.plain_operand, hop]
      refine (ih (by omega) room).trans_eq ?_
      rw [Reader.plain_postfixes_stop hrest]
  | @unary m t ts rest op operand hop hoperand ih =>
      intro hrest room
      rw [Layer.operand_ofRoom, Reader.plain_operand, hop]
      refine (Layer.within_below (fun layer => plain (layer.operand ts)) ⟨ts, rfl⟩
        (fun room => ih hrest room) room).map _
  | @ofPrefixed m ts rest e h ih =>
      intro hrest p hp room
      rw [Layer.plain_expr_ofRoom]
      have hrest : tightness rest ≤ 7 := Nat.le_succ_of_le hrest
      exact (Layer.within_below (fun layer => plain (layer.operand ts)) ⟨ts, rfl⟩
        (fun room => ih hrest room) room).bind _
  | @cast m k ts more rest operand type hoperand htype ih =>
      intro hrest p hp room
      have hrest : tightness rest ≤ 9 := Nat.le_trans hrest (by decide)
      have hread := Layer.within_below (fun layer => plain (layer.type more)) ⟨more, rfl⟩
        (fun room => htype.reads param hrest room) room
      rw [← Nat.add_max_add_right]
      refine (ih (tightness_cons_le (by decide)) p hp room).trans ?_
      rw [Reader.plain_operators]
      exact hread.bind _
  | ofTighter h ih =>
      intro hrest p hp room
      exact ih (Nat.le_succ_of_le hrest) p (Nat.le_succ_of_le hp) room
  | @binary m k t ts more rest op left right hop hleft hright ih ihright =>
      intro hrest p hp room
      have hlevel : op.level + 1 ≤ castLevel := op.level_lt
      have hread : ∀ room, Within (k + 1) room
          (plain ((Layer.ofRoom param room).expr (op.level + 1) more)) (.ok (right, rest)) := by
        intro room
        refine (ihright (Nat.le_succ_of_le hrest) _ (Nat.le_refl _) room).trans_eq ?_
        exact Reader.plain_operators_stop hlevel (.inl (Nat.lt_succ_of_le hrest))
      have hbelow := Layer.within_below (fun layer => plain (layer.expr (op.level + 1) more))
        ⟨more, rfl⟩ hread room
      rw [← Nat.add_max_add_right]
      have htight : tightness (t :: more) ≤ op.level :=
        tightness_cons_le (Nat.le_of_eq (Token.tightness_of_binaryOp? hop))
      refine (ih htight p hp room).trans ?_
      rw [Reader.plain_operators_binary _ _ _ hop hp]
      exact hbelow.bind _

/-! ### Lambdas -/

/-- A body that opens `m` levels is read if there is room for it, and else nested too deeply. -/
theorem Derives.reads_body {param : String} {m : Nat} {ts : List Token} {body : Expr}
    (h : Derives param (.level 1) m ts body []) (room : Nat) :
    Within (m + 1) room (plain ((Layer.ofRoom param room).expr 0 ts)) (.ok (body, [])) := by
  refine (h.reads (Nat.zero_le _) 0 (Nat.zero_le _) room).trans_eq ?_
  exact Reader.plain_operators_stop (Nat.zero_le _) (.inr rfl)

/-- **The tokens of a lambda are read,** if no more levels are open in it than may be, and else they
are nested too deeply. -/
theorem Lambda.Spells.reads {m : Nat} {ts : List Token} {l : Lambda} (h : Spells m ts l) :
    Within m nestingLimit (ofTokens ts) (.ok l) := by
  rw [ofTokens_eq]
  cases h with
  | bars h =>
      rw [Reader.plain_head_bars]
      exact (h.reads_body nestingLimit).bind _
  | arrow h => exact (h.reads_body nestingLimit).bind _

end MemberAccess
