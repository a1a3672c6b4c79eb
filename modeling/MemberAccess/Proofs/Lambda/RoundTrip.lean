import MemberAccess.Proofs.Lambda.Completeness
import MemberAccess.Proofs.Lambda.Lexing

/-!
# Printed lambdas read back

The text of a printable lambda is split into tokens that spell the lambda, so that reading gives it
back where it is not nested too deeply. An expression that is neither a cast nor an operator is
applied, so nothing that follows takes it apart. The others are put between parentheses wherever
they are operands, at the cost of a level. There is a lemma for each kind of node.

## Main definitions

* `Expr.SpelledBy`, `Expr.OperandBy`, `Expr.MoreArgsBy`: the tokens of the text of an expression, of
  an operand and of what follows an argument.

## Main results

* `Expr.exists_spelledBy`: a printable expression is spelled by the tokens of its text.
* `Lambda.ofText_render`: printed lambdas read back up to the limit of nesting, and no further.
-/

namespace MemberAccess

/-! ### Operators -/

/-- The symbol of an operator before an operand. -/
theorem UnaryOp.exists_symbol (op : UnaryOp) :
    ∃ c s, op.text.toList = [c] ∧ Symbol.ofChar? c = some s ∧ c ≠ '|' ∧ c ≠ '=' ∧
      (Token.symbol s).unaryOp? = some op := by
  cases op with
  | negate => exact ⟨'-', .minus, rfl, rfl, by decide, by decide, rfl⟩
  | complement => exact ⟨'!', .bang, rfl, rfl, by decide, by decide, rfl⟩

/-- **The token of an operator between operands,** which a blank follows. -/
theorem BinaryOp.exists_token (op : BinaryOp) :
    ∃ t : Token, t.binaryOp? = some op ∧ ∀ more us, Scans more us →
      Scans (op.text.toList ++ ' ' :: more) (t :: us) := by
  have hpair : ∀ {c d : Char} {s : Symbol}, isMark c = true → Symbol.ofPair? c d = some s →
      ∀ more us, Scans more us → Scans (c :: d :: ' ' :: more) (.symbol s :: us) :=
    fun hc hs _ _ hus => .pair hc hs (.blank rfl hus)
  have hsign : ∀ {c : Char} {s : Symbol}, Symbol.ofChar? c = some s → c ≠ '|' →
      ∀ more us, Scans more us → Scans (c :: ' ' :: more) (.symbol s :: us) :=
    fun hs hc _ _ hus => .sign hs hc (by simp) (.blank rfl hus)
  cases op with
  | or => exact ⟨.symbol .orOr, rfl, hpair (by decide) rfl⟩
  | and => exact ⟨.symbol .andAnd, rfl, hpair (by decide) rfl⟩
  | eq => exact ⟨.symbol .equals, rfl, hpair (by decide) rfl⟩
  | ne => exact ⟨.symbol .differs, rfl, hpair (by decide) rfl⟩
  | lt => exact ⟨.symbol .less, rfl, hsign rfl (by decide)⟩
  | le => exact ⟨.symbol .atMost, rfl, hpair (by decide) rfl⟩
  | gt => exact ⟨.symbol .greater, rfl, hsign rfl (by decide)⟩
  | ge => exact ⟨.symbol .atLeast, rfl, hpair (by decide) rfl⟩
  | add => exact ⟨.symbol .plus, rfl, hsign rfl (by decide)⟩
  | sub => exact ⟨.symbol .minus, rfl, hsign rfl (by decide)⟩
  | mul => exact ⟨.symbol .star, rfl, hsign rfl (by decide)⟩
  | div => exact ⟨.symbol .slash, rfl, hsign rfl (by decide)⟩
  | rem => exact ⟨.symbol .percent, rfl, hsign rfl (by decide)⟩

namespace Expr

/-! ### What spells an expression -/

/-- **An expression is spelled by tokens,** those of its text. Unless it is a cast or an operator,
anything may follow the tokens; otherwise a `<` may not, as the arguments of a type would begin
there. -/
structure SpelledBy (param : String) (e : Expr) (ts : List Token) : Prop where
  opens : Opens e.render.toList
  writes : Writes EndsExpr e.render.toList ts
  phrase (rest : List Token) (hrest : rest.head? ≠ some (.symbol .less)) :
    Derives param (.level 1) e.need (ts ++ rest) e rest
  applied (htight : e.isLoose = false) (rest : List Token) :
    Derives param .applied e.need (ts ++ rest) e rest

/-- **An operand is spelled by tokens,** with the parentheses around it. Anything may follow. -/
structure OperandBy (param : String) (e : Expr) (ts : List Token) : Prop where
  opens : Opens (e.parenthesize e.render).toList
  writes : Writes EndsExpr (e.parenthesize e.render).toList ts
  applied (rest : List Token) :
    Derives param .applied (e.operandNeed e.need) (ts ++ rest) e rest

/-- **What follows an argument is spelled by tokens:** the further arguments and the closing
parenthesis. -/
structure MoreArgsBy (param : String) (args : List Expr) (ts : List Token) : Prop where
  ends (more : List Char) : EndsExpr ((renderMoreArgs args).toList ++ ')' :: more)
  writes {more : List Char} {us : List Token} (hmore : EndsExpr more) (h : Scans more us) :
    Scans ((renderMoreArgs args).toList ++ ')' :: more) (ts ++ us)
  notLess (rest : List Token) : (ts ++ rest).head? ≠ some (.symbol .less)
  arguments {m : Nat} {us rest : List Token} {arg : Expr}
    (harg : Derives param (.level 1) m us arg (ts ++ rest)) :
    Derives param .arguments (max (m + 1) (needArgs args)) us (arg :: args) rest

/-- **Arguments are spelled by tokens,** with the closing parenthesis. -/
structure ArgsBy (param : String) (args : List Expr) (ts : List Token) : Prop where
  opens (more : List Char) : Opens ((renderArgs args).toList ++ ')' :: more)
  writes {more : List Char} {us : List Token} (hmore : EndsExpr more) (h : Scans more us) :
    Scans ((renderArgs args).toList ++ ')' :: more) (ts ++ us)
  arguments (rest : List Token) :
    Derives param .arguments (needArgs args) (ts ++ rest) args rest

variable {param : String}

/-- What is applied is a phrase of every level. -/
theorem level_of_applied {m k : Nat} {ts rest : List Token} {e : Expr}
    (h : Derives param .applied m ts e rest) (hk : k ≤ castLevel) :
    Derives param (.level k) m ts e rest :=
  (Derives.ofPrefixed (.ofApplied h)).loosen hk

namespace SpelledBy

variable {e : Expr} {ts : List Token}

/-- A node that is no cast and no operator. -/
theorem of_applied (hopens : Opens e.render.toList)
    (hwrites : Writes EndsExpr e.render.toList ts)
    (happlied : ∀ rest, Derives param .applied e.need (ts ++ rest) e rest) :
    e.SpelledBy param ts where
  opens := hopens
  writes := hwrites
  phrase rest _ := level_of_applied (happlied rest) (by decide)
  applied _ := happlied

/-- **An operand** stands between parentheses if it is a cast or an operator. -/
theorem operand (h : e.SpelledBy param ts) : ∃ us, e.OperandBy param us := by
  cases hloose : e.isLoose with
  | false =>
      refine ⟨ts, ?_, ?_, fun rest => ?_⟩
      · rw [parenthesize, hloose, if_neg Bool.false_ne_true]
        exact h.opens
      · rw [parenthesize, hloose, if_neg Bool.false_ne_true]
        exact h.writes
      · rw [operandNeed, hloose, if_neg Bool.false_ne_true]
        exact h.applied hloose rest
  | true =>
      have htext : (e.parenthesize e.render).toList = '(' :: (e.render.toList ++ [')']) := by
        rw [parenthesize, hloose, if_pos rfl, String.toList_append, String.toList_append]
        rfl
      refine ⟨.symbol .openParen :: (ts ++ [.symbol .closeParen]), ?_, ?_, fun rest => ?_⟩
      · rw [htext]
        exact ⟨'(', _, rfl, by decide⟩
      · intro more us hmore hus
        have hclose : Scans (')' :: more) (.symbol .closeParen :: us) :=
          .sign rfl (by decide) hmore.word.ne hus
        have hinner := h.writes _ _ (.cons (by decide) _) hclose
        simp only [htext, List.cons_append, List.append_assoc, List.nil_append]
        exact .sign rfl (by decide) (h.opens.append _).ne hinner
      · rw [operandNeed, hloose, if_pos rfl, List.cons_append, List.append_assoc]
        exact .ofAtom (.parens (h.phrase _ (by simp)))

end SpelledBy

/-! ### Arguments -/

/-- After the last argument, the bracket is closed. -/
theorem MoreArgsBy.nil : MoreArgsBy param [] [.symbol .closeParen] where
  ends more := .cons (by decide) more
  writes hmore h := .sign rfl (by decide) hmore.word.ne h
  notLess rest := by simp
  arguments harg := .lastArgument harg

/-- A further argument stands after a comma and a blank. -/
theorem MoreArgsBy.cons {a : Expr} {as : List Expr} {ts us : List Token}
    (ha : a.SpelledBy param ts) (has : MoreArgsBy param as us) :
    MoreArgsBy param (a :: as) (.symbol .comma :: (ts ++ us)) where
  ends more := by
    simp only [renderMoreArgs, String.toList_append, List.append_assoc]
    exact .cons (by decide) _
  writes {more vs} hmore hvs := by
    have harg := ha.writes _ _ (has.ends more) (has.writes hmore hvs)
    have hcomma : Scans (',' :: ' ' :: (a.render.toList ++
        ((renderMoreArgs as).toList ++ ')' :: more))) (.symbol .comma :: (ts ++ (us ++ vs))) :=
      .sign rfl (by decide) (by simp) (.blank rfl harg)
    simp only [renderMoreArgs, String.toList_append, List.append_assoc, List.cons_append]
    exact hcomma
  notLess rest := by simp
  arguments harg := by
    rw [List.cons_append, List.append_assoc] at harg
    exact .argument harg (has.arguments (ha.phrase _ (has.notLess _)))

/-- Without arguments, the bracket is closed at once. -/
theorem ArgsBy.nil : ArgsBy param [] [.symbol .closeParen] where
  opens more := ⟨')', more, rfl, by decide⟩
  writes hmore h := .sign rfl (by decide) hmore.word.ne h
  arguments rest := .noArgument

/-- The first argument stands in front of the others. -/
theorem ArgsBy.cons {a : Expr} {as : List Expr} {ts us : List Token}
    (ha : a.SpelledBy param ts) (has : MoreArgsBy param as us) :
    ArgsBy param (a :: as) (ts ++ us) where
  opens more := by
    rw [renderArgs, String.toList_append, List.append_assoc]
    exact ha.opens.append _
  writes {more vs} hmore hvs := by
    rw [renderArgs, String.toList_append, List.append_assoc, List.append_assoc]
    exact ha.writes _ _ (has.ends more) (has.writes hmore hvs)
  arguments rest := by
    rw [List.append_assoc]
    exact has.arguments (ha.phrase _ (has.notLess _))

/-- Arguments between their parentheses. -/
theorem ArgsBy.scans {args : List Expr} {ts us : List Token} {more : List Char}
    (h : ArgsBy param args ts) (hmore : EndsExpr more) (hus : Scans more us) :
    Scans ('(' :: ((renderArgs args).toList ++ ')' :: more))
      (.symbol .openParen :: (ts ++ us)) :=
  .sign rfl (by decide) (h.opens more).ne (h.writes hmore hus)

/-! ### One node at a time -/

namespace SpelledBy

variable {e left right : Expr} {args : List Expr} {name path type : String} {ts us : List Token}

/-- A bound parameter is spelled by its name. -/
theorem parameter (hparam : IsName param) (hbinds : param ≠ "_") :
    (Expr.parameter param).SpelledBy param [.ident param] :=
  of_applied hparam.opens (fun _ _ hmore hus => .name hparam hmore.word.endsWord hus)
    fun _ => .ofAtom (.parameter .name hbinds)

/-- A path is spelled by its segments, unless it is the parameter. -/
theorem free (hpath : IsPath path) (hfree : param = "_" ∨ path ≠ param) :
    ∃ ts, (Expr.free path).SpelledBy param ts := by
  obtain ⟨ts, hwrites, hspells⟩ := hpath.writes
  exact ⟨ts, of_applied hpath.opens (fun more us hmore hus => hwrites more us hmore.word hus)
    fun rest => .ofAtom (.free (hspells rest) hfree)⟩

/-- A printable constant is spelled by one token. -/
theorem constant {value : Literal} (hvalue : value.Printable) :
    (Expr.constant value).SpelledBy param [.literal value] :=
  of_applied hvalue.opens (fun _ _ hmore hus => .literal hvalue hmore hus)
    fun _ => .ofAtom .constant

/-- A call is spelled by its path and its arguments. -/
theorem call (hpath : IsPath path) (hargs : ArgsBy param args us) :
    ∃ ts, (Expr.call path args).SpelledBy param ts := by
  obtain ⟨ts, hwrites, hspells⟩ := hpath.writes
  refine ⟨ts ++ .symbol .openParen :: us, of_applied ?_ ?_ fun rest => ?_⟩
  · simp only [render, String.toList_append, List.append_assoc]
    exact hpath.opens.append _
  · intro more vs hmore hvs
    have hcall := hwrites ('(' :: _) _ (.cons (by decide) _) (hargs.scans hmore hvs)
    simp only [render, String.toList_append, List.append_assoc]
    exact hcall
  · rw [List.append_assoc]
    exact .ofAtom (.call (hspells _) (hargs.arguments rest))

/-- A member is spelled by what it belongs to, a point and its name. -/
theorem member (he : e.OperandBy param ts) (hname : IsName name) :
    (Expr.member e name).SpelledBy param (ts ++ [.symbol .dot, .ident name]) := by
  refine of_applied ?_ ?_ fun rest => ?_
  · simp only [render, String.toList_append, List.append_assoc]
    exact he.opens.append _
  · intro more us hmore hus
    have hdot : Scans ('.' :: (name.toList ++ more)) (.symbol .dot :: .ident name :: us) :=
      .sign rfl (by decide) (hname.opens.append _).ne (.name hname hmore.word.endsWord hus)
    have hmember := he.writes _ _ (.dot hname _) hdot
    simp only [render, String.toList_append, List.append_assoc]
    exact hmember
  · rw [List.append_assoc]
    exact .member (he.applied _)

/-- The call of a method is spelled as a member with arguments. -/
theorem method (he : e.OperandBy param ts) (hname : IsName name) (hargs : ArgsBy param args us) :
    (Expr.method e name args).SpelledBy param
      (ts ++ .symbol .dot :: .ident name :: .symbol .openParen :: us) := by
  refine of_applied ?_ ?_ fun rest => ?_
  · simp only [render, String.toList_append, List.append_assoc]
    exact he.opens.append _
  · intro more vs hmore hvs
    have hopen := hargs.scans hmore hvs
    have hdot : Scans ('.' :: (name.toList ++ '(' :: ((renderArgs args).toList ++ ')' :: more)))
        (.symbol .dot :: .ident name :: .symbol .openParen :: (us ++ vs)) :=
      .sign rfl (by decide) (hname.opens.append _).ne
        (.name hname (.cons (by decide) _) hopen)
    have hmethod := he.writes _ _ (.dot hname _) hdot
    simp only [render, String.toList_append, List.append_assoc]
    exact hmethod
  · rw [List.append_assoc]
    exact .method (he.applied _) (hargs.arguments rest)

/-- An index is spelled between square brackets. -/
theorem index (he : e.OperandBy param ts) (hright : right.SpelledBy param us) :
    (Expr.index e right).SpelledBy param
      (ts ++ .symbol .openBracket :: (us ++ [.symbol .closeBracket])) := by
  refine of_applied ?_ ?_ fun rest => ?_
  · simp only [render, String.toList_append, List.append_assoc]
    exact he.opens.append _
  · intro more vs hmore hvs
    have hclose : Scans (']' :: more) (.symbol .closeBracket :: vs) :=
      .sign rfl (by decide) hmore.word.ne hvs
    have hposition := hright.writes _ _ (.cons (by decide) _) hclose
    have hopen : Scans ('[' :: (right.render.toList ++ ']' :: more))
        (.symbol .openBracket :: (us ++ .symbol .closeBracket :: vs)) :=
      .sign rfl (by decide) (hright.opens.append _).ne hposition
    have hindex := he.writes _ _ (.cons (by decide) _) hopen
    simp only [render, String.toList_append, List.append_assoc, List.cons_append, List.nil_append]
    exact hindex
  · simp only [List.append_assoc, List.cons_append, List.nil_append]
    exact .index (he.applied _) (hright.phrase _ (by simp))

/-- A cast is spelled by its operand, `as` and the type. -/
theorem cast {m : Nat} (he : e.OperandBy param ts) (htype : IsType .single m type) :
    ∃ ts, (Expr.cast e type).SpelledBy param ts := by
  obtain ⟨us, hwrites, hspelled⟩ := htype.writes
  refine ⟨ts ++ .keywordAs :: us, ?_, ?_, fun rest hrest => ?_, fun htight => nomatch htight⟩
  · simp only [render, String.toList_append, List.append_assoc]
    exact he.opens.append _
  · intro more vs hmore hvs
    have htypeText := hwrites _ _ hmore.word hvs
    have has : Scans ('a' :: (['s'] ++ ' ' :: (type.toList ++ more)))
        (Lexeme.word ['a', 's'] :: (us ++ vs)) :=
      .word (by decide) (List.all_eq_true.1 (by decide)) (.cons (by decide) _)
        (.blank rfl htypeText)
    have hcast := he.writes (' ' :: _) _ (.cons (by decide) _) (.blank rfl has)
    simp only [render, String.toList_append, List.append_assoc]
    exact hcast
  · have hoperand := he.applied (.keywordAs :: (us ++ rest))
    rw [List.append_assoc, need, htype.typeDepth_eq]
    exact (Derives.cast (level_of_applied hoperand (Nat.le_refl _))
      (hspelled rest hrest)).loosen (by decide)

/-- A prefix is spelled in front of its operand. -/
theorem unary (op : UnaryOp) (he : e.OperandBy param ts) :
    ∃ ts, (Expr.unary op e).SpelledBy param ts := by
  obtain ⟨c, s, htext, hs, hbar, hne, hop⟩ := op.exists_symbol
  have hrender : (Expr.unary op e).render.toList = c :: (e.parenthesize e.render).toList := by
    rw [render, String.toList_append, htext, List.singleton_append]
  refine ⟨.symbol s :: ts, ?_, ?_, fun rest _ => ?_, fun htight => nomatch htight⟩
  · rw [hrender]
    exact ⟨c, _, rfl, hne⟩
  · intro more us hmore hus
    rw [hrender]
    exact .sign hs hbar (he.opens.append _).ne (he.writes _ _ hmore hus)
  · have hoperand := he.applied rest
    exact (Derives.ofPrefixed (.unary hop (.ofApplied hoperand))).loosen (by decide)

/-- An operator is spelled between its operands. -/
theorem binary (op : BinaryOp) (hleft : left.OperandBy param ts)
    (hright : right.OperandBy param us) :
    ∃ ts, (Expr.binary op left right).SpelledBy param ts := by
  obtain ⟨t, hop, hwrites⟩ := op.exists_token
  refine ⟨ts ++ t :: us, ?_, ?_, fun rest _ => ?_, fun htight => nomatch htight⟩
  · simp only [render, String.toList_append, List.append_assoc]
    exact hleft.opens.append _
  · intro more vs hmore hvs
    have hoperator := hwrites _ _ (hright.writes _ _ hmore hvs)
    have hbinary := hleft.writes (' ' :: _) _ (.cons (by decide) _) (.blank rfl hoperator)
    simp only [render, String.toList_append, List.append_assoc]
    exact hbinary
  · have hlevel := op.level_lt
    have hbefore := hleft.applied (t :: (us ++ rest))
    have hbehind := hright.applied rest
    rw [List.append_assoc]
    exact (Derives.binary hop (level_of_applied hbefore (by omega))
      (level_of_applied hbehind (by omega))).loosen op.level_pos

end SpelledBy

/-! ### All expressions -/

mutual

/-- **The text of a printable expression** is split into tokens that spell it. -/
theorem exists_spelledBy (hparam : IsName param) : ∀ (e : Expr),
    e.Printable param → ∃ ts, e.SpelledBy param ts
  | .parameter name, h => by
      rw [h.1]
      exact ⟨_, .parameter hparam h.2⟩
  | .free name, h => SpelledBy.free h.1 h.2
  | .member target name, h => by
      obtain ⟨ts, htarget⟩ := exists_spelledBy hparam target h.1
      obtain ⟨us, hoperand⟩ := htarget.operand
      exact ⟨_, .member hoperand h.2⟩
  | .cast operand type, h => by
      obtain ⟨hoperand, m, htype⟩ := h
      obtain ⟨ts, hspelled⟩ := exists_spelledBy hparam operand hoperand
      obtain ⟨us, hoperand⟩ := hspelled.operand
      exact SpelledBy.cast hoperand htype
  | .constant value, h => ⟨_, .constant h⟩
  | .call path args, h => by
      obtain ⟨⟨ts, hargs⟩, -⟩ := exists_argsBy hparam args h.2
      exact SpelledBy.call h.1 hargs
  | .method receiver name args, h => by
      obtain ⟨hreceiver, hname, hargs⟩ := h
      obtain ⟨ts, hspelled⟩ := exists_spelledBy hparam receiver hreceiver
      obtain ⟨us, hoperand⟩ := hspelled.operand
      obtain ⟨⟨vs, hargs⟩, -⟩ := exists_argsBy hparam args hargs
      exact ⟨_, .method hoperand hname hargs⟩
  | .index target position, h => by
      obtain ⟨ts, htarget⟩ := exists_spelledBy hparam target h.1
      obtain ⟨us, hoperand⟩ := htarget.operand
      obtain ⟨vs, hposition⟩ := exists_spelledBy hparam position h.2
      exact ⟨_, .index hoperand hposition⟩
  | .unary op operand, h => by
      obtain ⟨ts, hspelled⟩ := exists_spelledBy hparam operand h
      obtain ⟨us, hoperand⟩ := hspelled.operand
      exact SpelledBy.unary op hoperand
  | .binary op left right, h => by
      obtain ⟨ts, hleft⟩ := exists_spelledBy hparam left h.1
      obtain ⟨ts', hleft⟩ := hleft.operand
      obtain ⟨us, hright⟩ := exists_spelledBy hparam right h.2
      obtain ⟨us', hright⟩ := hright.operand
      exact SpelledBy.binary op hleft hright

/-- Printable arguments, and what follows an argument. -/
theorem exists_argsBy (hparam : IsName param) : ∀ (args : List Expr),
    PrintableArgs param args → (∃ ts, ArgsBy param args ts) ∧ ∃ ts, MoreArgsBy param args ts
  | [], _ => ⟨⟨_, .nil⟩, ⟨_, .nil⟩⟩
  | a :: as, h => by
      obtain ⟨ts, ha⟩ := exists_spelledBy hparam a h.1
      obtain ⟨-, us, has⟩ := exists_argsBy hparam as h.2
      exact ⟨⟨_, .cons ha has⟩, ⟨_, .cons ha has⟩⟩

end

end Expr

/-! ### Lambdas -/

namespace Lambda

/-- **The text of a lambda** is split into tokens that spell it if the text of its body is. The body
opens a level. -/
theorem exists_spells {l : Lambda} {ts : List Token} (hparam : IsName l.param)
    (hbody : l.body.SpelledBy l.param ts) :
    ∃ us, Spells (l.body.need + 1) us l ∧ Scans l.render.toList us := by
  have hphrase := hbody.phrase [] (by simp)
  rw [List.append_nil] at hphrase
  refine ⟨_, .bars hphrase, ?_⟩
  have htext := hbody.writes [] [] .nil .nil
  rw [List.append_nil, List.append_nil] at htext
  have hbar : Scans ('|' :: ' ' :: l.body.render.toList) (.symbol .pipe :: ts) :=
    .mark rfl (fun d hd => Option.some.inj hd ▸ rfl) (.blank rfl htext)
  have hname : Scans (l.param.toList ++ '|' :: ' ' :: l.body.render.toList)
      (.ident l.param :: .symbol .pipe :: ts) :=
    .name hparam (.cons (by decide) _) hbar
  have hhead : Scans ('|' :: (l.param.toList ++ '|' :: ' ' :: l.body.render.toList))
      (.symbol .pipe :: .ident l.param :: .symbol .pipe :: ts) := by
    refine .mark rfl (fun d hd => ?_) hname
    obtain ⟨c, more, hs, hc, -⟩ := hparam.exists_cons
    rw [hs] at hd
    obtain rfl : c = d := Option.some.inj hd
    refine Symbol.ofPair?_bar ?_
    rintro rfl
    exact absurd hc (by decide)
  simp only [render, String.toList_append, List.append_assoc]
  exact hhead

/-- The text of a printable lambda is split into tokens that spell it. -/
theorem Printable.exists_spells {l : Lambda} (h : l.Printable) :
    ∃ ts, Spells (l.body.need + 1) ts l ∧ Scans l.render.toList ts := by
  obtain ⟨ts, hbody⟩ := Expr.exists_spelledBy h.param l.body h.body
  exact Lambda.exists_spells h.param hbody

/-- Once a text is split into tokens, they decide what is read. -/
theorem ofChars_of_scans {cs : List Char} {ts : List Token} (h : Scans cs ts) :
    (∀ l, ofTokens ts = .ok l → ofChars cs = .ok l) ∧
      ∀ e, ofTokens ts = .error e → ∃ offset, ofChars cs = .error ⟨offset, e.fault⟩ := by
  obtain ⟨placed, hscan, rfl⟩ := h 0
  constructor
  · intro l hl
    simp only [ofChars, scan, hscan, hl]
  · intro e he
    simp only [ofChars, scan, hscan, he]
    exact ⟨_, rfl⟩

/-- The lambda `|x| (x.items[0] as Option<a::B>) < f(-y, "\n")`. -/
def comparisonLambda : Lambda :=
  ⟨"x", .binary .lt
    (.cast (.index (.member (.parameter "x") "items") (.constant (.int 0))) "Option<a::B>")
    (.call "f" [.unary .negate (.free "y"), .constant (.string "\n")])⟩

/-- **Printed lambdas read back,** if the body needs fewer levels than may be open at a time. Those
that need more are nested too deeply, and that is what is reported. -/
theorem ofText_render {l : Lambda} (h : l.Printable) :
    (1 + l.body.need ≤ nestingLimit → ofText l.render = .ok l) ∧
      (nestingLimit < 1 + l.body.need →
        ∃ offset, ofText l.render = .error ⟨offset, .tooDeep⟩) := by
  obtain ⟨ts, hspells, hscans⟩ := h.exists_spells
  obtain ⟨hok, herror⟩ := ofChars_of_scans hscans
  rw [Nat.add_comm]
  constructor
  · intro hfits
    exact hok l (hspells.reads.fits hfits)
  · intro hexceeds
    obtain ⟨rest, hdeep⟩ := hspells.reads.exceeds hexceeds
    exact herror _ hdeep

/-- A cast is put between parentheses, and a line feed is escaped. -/
theorem ofText_comparison :
    comparisonLambda.Printable ∧
      ofText "|x| (x.items[0] as Option<a::B>) < f(-y, \"\\n\")" = .ok comparisonLambda := by
  have htype : IsType .single 1 "Option<a::B>" :=
    .applied (.name (s := "Option") (by decide))
      (.last (.bare (.segment (.name (s := "a") (by decide)) (s := "B") (by decide))))
  have hzero : (Literal.int 0).Printable := by
    show 0 ≤ (0 : Int64).toInt
    decide
  have hfeed : (Literal.string "\n").Printable := by
    intro c hc
    obtain rfl : c = '\n' := by simpa using hc
    decide
  have hprintable : comparisonLambda.Printable := by
    refine ⟨by decide, ⟨⟨⟨⟨rfl, by decide⟩, by decide⟩, hzero⟩, 1, htype⟩, ?_⟩
    exact ⟨.name (by decide), ⟨.name (by decide), .inr (by decide)⟩, hfeed, trivial⟩
  have htext : comparisonLambda.render =
      "|x| (x.items[0] as Option<a::B>) < f(-y, \"\\n\")" := by decide +kernel
  have hneed : 1 + comparisonLambda.body.need ≤ nestingLimit := by decide
  rw [← htext]
  exact ⟨hprintable, (ofText_render hprintable).1 hneed⟩

end Lambda

end MemberAccess
