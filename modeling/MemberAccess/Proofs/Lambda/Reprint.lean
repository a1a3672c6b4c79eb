import MemberAccess.Proofs.Lambda.Legible
import MemberAccess.Proofs.Lambda.RoundTrip
import MemberAccess.Proofs.Lambda.Soundness

/-!
# Read, printed and read again

A lambda that was read is printed as a text that reads as the lambda, up to two things. The text may
say something else than the tokens that were read, which legible texts rule out. And an operand that
is a cast or an operator is printed between parentheses whether or not it was read between some, so
that the printed text may nest more deeply than the one that was read, and too deeply.

The tokens that were read spell the lambda. By induction on that derivation the text of each phrase
is split into tokens that spell the phrase again; names and constants are what they were because
their tokens come from a legible text.

## Main definitions

* `Expr.Reprints`: the expressions whose texts spell them.

## Main results

* `Derives.reprints`: phrases of legible tokens.
* `Lambda.ofText_render_of_ofText`: what was read from a legible text is read from its printed text,
  within the limit of nesting.
-/

namespace MemberAccess

variable {param : String}

/-! ### Names, paths and types -/

/-- A token that comes from a text and is legible there. -/
def Token.IsStable (t : Token) : Prop :=
  t.IsScanned ∧ t.IsLegible

/-- A stable token of a name has a name that can be printed. -/
theorem Token.IsStable.name {name : String} (h : (Token.ident name).IsStable) : IsName name :=
  .of_ident h.1 h.2

/-- A path of stable tokens. -/
theorem SpellsPath.isPath {ts rest : List Token} {path : String} (h : SpellsPath ts path rest)
    (hts : ∀ t ∈ ts, t.IsStable) : IsPath path ∧ ∀ t ∈ rest, t.IsStable := by
  induction h with
  | name =>
      obtain ⟨hname, hrest⟩ := List.forall_mem_cons.1 hts
      exact ⟨.name hname.name, hrest⟩
  | segment _ ih =>
      obtain ⟨hpath, hmore⟩ := ih hts
      obtain ⟨hname, hrest⟩ := List.forall_mem_cons.1 (List.forall_mem_cons.1 hmore).2
      exact ⟨.segment hpath hname.name, hrest⟩

/-- A type of stable tokens. -/
theorem SpellsType.isType {part : TypePart} {m : Nat} {ts rest : List Token} {text : String}
    (h : SpellsType part m ts text rest) (hts : ∀ t ∈ ts, t.IsStable) :
    IsType part m text ∧ ∀ t ∈ rest, t.IsStable := by
  induction h with
  | bare hpath _ =>
      obtain ⟨hpath, hrest⟩ := hpath.isPath hts
      exact ⟨.bare hpath, hrest⟩
  | applied hpath _ ih =>
      obtain ⟨hpath, hmore⟩ := hpath.isPath hts
      obtain ⟨hargs, hrest⟩ := ih (List.forall_mem_cons.1 hmore).2
      exact ⟨.applied hpath hargs, hrest⟩
  | last _ ih =>
      obtain ⟨htype, hmore⟩ := ih hts
      exact ⟨.last htype, (List.forall_mem_cons.1 hmore).2⟩
  | more _ _ ih ihargs =>
      obtain ⟨htype, hmore⟩ := ih hts
      obtain ⟨hargs, hrest⟩ := ihargs (List.forall_mem_cons.1 hmore).2
      exact ⟨.more htype hargs, hrest⟩

/-! ### Expressions -/

/-- **An expression reprints** if its text is split into tokens that spell it, and no constant in it
differs from itself. -/
structure Expr.Reprints (param : String) (e : Expr) : Prop where
  equal_self : e.equal e = true
  spelled : ∃ ts, e.SpelledBy param ts

/-- Arguments reprint, at the front and behind an argument. -/
structure Expr.ReprintsArgs (param : String) (args : List Expr) : Prop where
  equal_self : Expr.equalArgs args args = true
  spelled : ∃ ts, Expr.ArgsBy param args ts
  spelled_more : ∃ ts, Expr.MoreArgsBy param args ts

namespace Expr.Reprints

variable {e left right : Expr} {args : List Expr} {name path type : String}

attribute [local simp] equal equalArgs

/-- An operand reprints with the parentheses around it. -/
theorem operand (h : e.Reprints param) : ∃ ts, e.OperandBy param ts := by
  obtain ⟨ts, hspelled⟩ := h.spelled
  exact hspelled.operand

/-- A bound parameter reprints. -/
theorem parameter (hparam : IsName param) (hbinds : param ≠ "_") :
    (Expr.parameter param).Reprints param where
  equal_self := by simp
  spelled := ⟨_, .parameter hparam hbinds⟩

/-- A path reprints, unless it is the parameter. -/
theorem free (hpath : IsPath path) (hfree : param = "_" ∨ path ≠ param) :
    (Expr.free path).Reprints param where
  equal_self := by simp
  spelled := SpelledBy.free hpath hfree

/-- A constant may be a double, which the printable constants leave out. -/
theorem constant {value : Literal} (h : (Token.literal value).IsStable) :
    (Expr.constant value).Reprints param where
  equal_self := h.1.equal_self
  spelled := ⟨[.literal value], .of_applied (h.2.opens h.1)
    (fun _ _ hmore hus => .constant h.1 h.2 hmore hus) fun _ => .ofAtom .constant⟩

/-- A call reprints if its arguments do. -/
theorem call (hpath : IsPath path) (hargs : ReprintsArgs param args) :
    (Expr.call path args).Reprints param where
  equal_self := by simp [hargs.equal_self]
  spelled := by
    obtain ⟨ts, hts⟩ := hargs.spelled
    exact SpelledBy.call hpath hts

/-- A member reprints if what it belongs to does. -/
theorem member (he : e.Reprints param) (hname : IsName name) :
    (Expr.member e name).Reprints param where
  equal_self := by simp [he.equal_self]
  spelled := by
    obtain ⟨ts, hts⟩ := he.operand
    exact ⟨_, .member hts hname⟩

/-- The call of a method reprints if what it belongs to and its arguments do. -/
theorem method (he : e.Reprints param) (hname : IsName name) (hargs : ReprintsArgs param args) :
    (Expr.method e name args).Reprints param where
  equal_self := by simp [he.equal_self, hargs.equal_self]
  spelled := by
    obtain ⟨ts, hts⟩ := he.operand
    obtain ⟨us, hus⟩ := hargs.spelled
    exact ⟨_, .method hts hname hus⟩

/-- An index reprints if both of its parts do. -/
theorem index (he : e.Reprints param) (hright : right.Reprints param) :
    (Expr.index e right).Reprints param where
  equal_self := by simp [he.equal_self, hright.equal_self]
  spelled := by
    obtain ⟨ts, hts⟩ := he.operand
    obtain ⟨us, hus⟩ := hright.spelled
    exact ⟨_, .index hts hus⟩

/-- A cast reprints if its operand does. -/
theorem cast {m : Nat} (he : e.Reprints param) (htype : IsType .single m type) :
    (Expr.cast e type).Reprints param where
  equal_self := by simp [he.equal_self]
  spelled := by
    obtain ⟨ts, hts⟩ := he.operand
    exact SpelledBy.cast hts htype

/-- An expression with a prefix reprints if its operand does. -/
theorem unary (op : UnaryOp) (he : e.Reprints param) : (Expr.unary op e).Reprints param where
  equal_self := by simp [he.equal_self]
  spelled := by
    obtain ⟨ts, hts⟩ := he.operand
    exact SpelledBy.unary op hts

/-- An operation reprints if both of its operands do. -/
theorem binary (op : BinaryOp) (hleft : left.Reprints param) (hright : right.Reprints param) :
    (Expr.binary op left right).Reprints param where
  equal_self := by simp [hleft.equal_self, hright.equal_self]
  spelled := by
    obtain ⟨ts, hts⟩ := hleft.operand
    obtain ⟨us, hus⟩ := hright.operand
    exact SpelledBy.binary op hts hus

end Expr.Reprints

theorem Expr.ReprintsArgs.nil : ReprintsArgs param [] where
  equal_self := by simp [equalArgs]
  spelled := ⟨_, .nil⟩
  spelled_more := ⟨_, .nil⟩

/-- Arguments reprint if each of them does. -/
theorem Expr.ReprintsArgs.cons {arg : Expr} {args : List Expr} (harg : arg.Reprints param)
    (hargs : ReprintsArgs param args) : ReprintsArgs param (arg :: args) := by
  obtain ⟨ts, hts⟩ := harg.spelled
  obtain ⟨us, hus⟩ := hargs.spelled_more
  refine ⟨?_, ⟨_, .cons hts hus⟩, ⟨_, .cons hts hus⟩⟩
  simp [equalArgs, harg.equal_self, hargs.equal_self]

/-! ### Phrases -/

/-- What a phrase stands for reprints. -/
def Nonterminal.Reprints (param : String) : (n : Nonterminal) → n.Tree → Prop
  | arguments, args => Expr.ReprintsArgs param args
  | atom, e | applied, e | prefixed, e | level _, e => Expr.Reprints param e

/-- **Phrases of stable tokens reprint,** and the tokens behind them are stable. -/
theorem Derives.reprints (hparam : IsName param) {n : Nonterminal} {m : Nat} {ts rest : List Token}
    {tree : n.Tree} (h : Derives param n m ts tree rest) (hts : ∀ t ∈ ts, t.IsStable) :
    n.Reprints param tree ∧ ∀ t ∈ rest, t.IsStable := by
  induction h with
  | noArgument => exact ⟨.nil, (List.forall_mem_cons.1 hts).2⟩
  | lastArgument _ ih =>
      obtain ⟨harg, hmore⟩ := ih hts
      exact ⟨.cons harg .nil, (List.forall_mem_cons.1 hmore).2⟩
  | argument _ _ ih ihargs =>
      obtain ⟨harg, hmore⟩ := ih hts
      obtain ⟨hargs, hrest⟩ := ihargs (List.forall_mem_cons.1 hmore).2
      exact ⟨.cons harg hargs, hrest⟩
  | constant =>
      obtain ⟨hvalue, hrest⟩ := List.forall_mem_cons.1 hts
      exact ⟨.constant hvalue, hrest⟩
  | parameter hpath hbinds => exact ⟨.parameter hparam hbinds, (hpath.isPath hts).2⟩
  | free hpath hfree =>
      obtain ⟨hpath, hrest⟩ := hpath.isPath hts
      exact ⟨.free hpath hfree, hrest⟩
  | call hpath _ ih =>
      obtain ⟨hpath, hmore⟩ := hpath.isPath hts
      obtain ⟨hargs, hrest⟩ := ih (List.forall_mem_cons.1 hmore).2
      exact ⟨.call hpath hargs, hrest⟩
  | parens _ ih =>
      obtain ⟨hinner, hmore⟩ := ih (List.forall_mem_cons.1 hts).2
      exact ⟨hinner, (List.forall_mem_cons.1 hmore).2⟩
  | ofAtom _ ih => exact ih hts
  | member _ ih =>
      obtain ⟨htarget, hmore⟩ := ih hts
      obtain ⟨hname, hrest⟩ := List.forall_mem_cons.1 (List.forall_mem_cons.1 hmore).2
      exact ⟨.member htarget hname.name, hrest⟩
  | method _ _ ih ihargs =>
      obtain ⟨hreceiver, hmore⟩ := ih hts
      obtain ⟨hname, hmore⟩ := List.forall_mem_cons.1 (List.forall_mem_cons.1 hmore).2
      obtain ⟨hargs, hrest⟩ := ihargs (List.forall_mem_cons.1 hmore).2
      exact ⟨.method hreceiver hname.name hargs, hrest⟩
  | index _ _ ih ihposition =>
      obtain ⟨htarget, hmore⟩ := ih hts
      obtain ⟨hposition, hmore⟩ := ihposition (List.forall_mem_cons.1 hmore).2
      exact ⟨.index htarget hposition, (List.forall_mem_cons.1 hmore).2⟩
  | ofApplied _ ih => exact ih hts
  | unary _ _ ih =>
      obtain ⟨hoperand, hrest⟩ := ih (List.forall_mem_cons.1 hts).2
      exact ⟨.unary _ hoperand, hrest⟩
  | ofPrefixed _ ih => exact ih hts
  | cast _ htype ih =>
      obtain ⟨hoperand, hmore⟩ := ih hts
      obtain ⟨htype, hrest⟩ := htype.isType (List.forall_mem_cons.1 hmore).2
      exact ⟨.cast hoperand htype, hrest⟩
  | ofTighter _ ih => exact ih hts
  | binary _ _ _ ih ihright =>
      obtain ⟨hleft, hmore⟩ := ih hts
      obtain ⟨hright, hrest⟩ := ihright (List.forall_mem_cons.1 hmore).2
      exact ⟨.binary _ hleft hright, hrest⟩

/-! ### Lambdas -/

namespace Lambda

/-- The parameter of a lambda of stable tokens is a name, and its body reprints. -/
theorem Spells.reprints {m : Nat} {ts : List Token} {l : Lambda} (h : Spells m ts l)
    (hts : ∀ t ∈ ts, t.IsStable) : IsName l.param ∧ l.body.Reprints l.param := by
  cases h with
  | bars hbody =>
      obtain ⟨hparam, hmore⟩ := List.forall_mem_cons.1 (List.forall_mem_cons.1 hts).2
      exact ⟨hparam.name, (hbody.reprints hparam.name (List.forall_mem_cons.1 hmore).2).1⟩
  | arrow hbody =>
      obtain ⟨hparam, hmore⟩ := List.forall_mem_cons.1 hts
      exact ⟨hparam.name, (hbody.reprints hparam.name (List.forall_mem_cons.1 hmore).2).1⟩

/-- A text is read by splitting it into tokens and reading these. -/
theorem ofText_eq_ok_iff {source : String} {l : Lambda} :
    ofText source = .ok l ↔
      ∃ ts, (scan source.toList).map (List.map Placed.token) = .ok ts ∧ ofTokens ts = .ok l := by
  rw [ofText, ofChars]
  cases scan source.toList with
  | error e => simp [Except.map]
  | ok placed =>
      cases htokens : ofTokens (placed.map Placed.token) with
      | error e => simp [Except.map, htokens]
      | ok l' => simp [Except.map, htokens]

/-- A text of tokens is rejected if they are, at the place of the first that is not consumed. -/
theorem ofText_eq_error_iff {source : String} {tokens : List Placed} {e : SyntaxError}
    (hscan : scan source.toList = .ok tokens) :
    ofText source = .error e ↔ ∃ r, ofTokens (tokens.map Placed.token) = .error r ∧
      e = ⟨offsetOf tokens (byteLength source.toList) r.rest.length, r.fault⟩ := by
  rw [ofText, ofChars, hscan]
  cases htokens : ofTokens (tokens.map Placed.token) with
  | error r => simp [htokens, eq_comm]
  | ok l => simp [htokens]

/-- What is read from a legible text has a name for its parameter and a body that reprints. -/
theorem reprints_of_ofText {source : String} {l : Lambda} (h : ofText source = .ok l)
    (hlegible : LegibleText source) : IsName l.param ∧ l.body.Reprints l.param := by
  obtain ⟨ts, hsplit, htokens⟩ := ofText_eq_ok_iff.1 h
  obtain ⟨placed, hscan, hplaced⟩ := hlegible
  rw [hscan] at hsplit
  obtain rfl : placed.map Placed.token = ts := Except.ok.inj hsplit
  obtain ⟨m, -, hspells⟩ := spells_of_ofTokens htokens
  refine hspells.reprints (List.forall_mem_map.2 fun p hp => ?_)
  exact ⟨isScanned_of_scan hscan p hp, hplaced p hp⟩

/-- The lambda `|x| x.type + c`. -/
def sumLambda (c : Binary64) : Lambda :=
  ⟨"x", .binary .add (.member (.parameter "x") "type") (.constant (.float c))⟩

/-- The text of `|x| x` with `n` signs before the body. -/
def signedText (n : Nat) : String :=
  "|x| " ++ String.ofList (List.replicate n '-') ++ "x"

/-- The lambda `|x| x` with `n` signs before the body. -/
def signedLambda (n : Nat) : Lambda :=
  ⟨"x", Nat.repeat (.unary .negate) n (.parameter "x")⟩

/-- Each sign opens a level when it is read. -/
theorem spells_signedLambda (n : Nat) :
    Spells (n + 1) (.symbol .pipe :: .ident "x" :: .symbol .pipe ::
      (List.replicate n (.symbol .minus) ++ [.ident "x"])) (signedLambda n) := by
  have hbody : Derives "x" .prefixed n (List.replicate n (.symbol .minus) ++ [.ident "x"])
      (signedLambda n).body [] := by
    induction n with
    | zero => exact .ofApplied (.ofAtom (.parameter .name (by decide)))
    | succ n ih => exact .unary rfl ih
  exact .bars (Derives.loosen (.ofPrefixed hbody) (by decide))

/-- Each sign is a token. -/
theorem scan_signedText (n : Nat) :
    (scan (signedText n).toList).map (List.map Placed.token) = .ok (.symbol .pipe :: .ident "x" ::
      .symbol .pipe :: (List.replicate n (.symbol .minus) ++ [.ident "x"])) := by
  have hname : IsName "x" := by decide +kernel
  have hbody : Scans (List.replicate n '-' ++ "x".toList)
      (List.replicate n (.symbol .minus) ++ [.ident "x"]) := by
    induction n with
    | zero =>
        have hx : Scans ("x".toList ++ []) [.ident "x"] :=
          .name hname (fun d hd => by cases hd) .nil
        rwa [List.append_nil] at hx
    | succ n ih =>
        rw [List.replicate_succ, List.replicate_succ, List.cons_append, List.cons_append]
        refine .sign rfl (by decide) ?_ ih
        cases n with
        | zero => decide
        | succ n => simp [List.replicate_succ]
  have hbar : Scans ('|' :: ' ' :: (List.replicate n '-' ++ "x".toList))
      (.symbol .pipe :: (List.replicate n (.symbol .minus) ++ [.ident "x"])) :=
    .mark rfl (fun d hd => Option.some.inj hd ▸ rfl) (.blank rfl hbody)
  have hhead := Scans.name hname (.cons (by decide) _) hbar
  have htext : (signedText n).toList =
      '|' :: ("x".toList ++ '|' :: ' ' :: (List.replicate n '-' ++ "x".toList)) := by
    simp [signedText]
  have hscans : Scans (signedText n).toList (.symbol .pipe :: .ident "x" :: .symbol .pipe ::
      (List.replicate n (.symbol .minus) ++ [.ident "x"])) := by
    rw [htext]
    exact .mark rfl (fun d hd => (Option.some.inj hd : 'x' = d) ▸ rfl) hhead
  obtain ⟨placed, hscan, htokens⟩ := hscans 0
  rw [scan, hscan, Except.map, htokens]

/-- A text with signs is read within the limit of nesting. -/
theorem ofText_signedText {n : Nat} (h : n + 1 ≤ nestingLimit) :
    ofText (signedText n) = .ok (signedLambda n) :=
  ofText_eq_ok_iff.2 ⟨_, scan_signedText n, (spells_signedLambda n).reads.fits h⟩

/-- A row of signs in front of the parameter reprints. -/
theorem reprints_signedLambda (n : Nat) : (signedLambda n).body.Reprints "x" := by
  induction n with
  | zero => exact .parameter (by decide +kernel) (by decide)
  | succ n ih => exact .unary .negate ih

/-- A body that reprints is read from the text of its lambda, up to the limit of nesting. -/
theorem ofText_render_of_reprints {l : Lambda} (hparam : IsName l.param)
    (hbody : l.body.Reprints l.param) :
    (1 + l.body.need ≤ nestingLimit → ofText l.render = .ok l ∧ l.equal l = true) ∧
      (nestingLimit < 1 + l.body.need →
        ∃ offset, ofText l.render = .error ⟨offset, .tooDeep⟩) := by
  obtain ⟨us, hspelled⟩ := hbody.spelled
  obtain ⟨ts, hspells, hscans⟩ := exists_spells hparam hspelled
  obtain ⟨hok, herror⟩ := ofChars_of_scans hscans
  rw [Nat.add_comm]
  constructor
  · intro hfits
    refine ⟨hok l (hspells.reads.fits hfits), ?_⟩
    simp [equal, hbody.equal_self]
  · intro hexceeds
    obtain ⟨rest, hdeep⟩ := hspells.reads.exceeds hexceeds
    exact herror _ hdeep

/-- **What was read from a legible text is read from its printed text,** and equals itself, if the
printed body needs no more levels than may be open at a time. Otherwise the printed text is nested
too deeply, and that is what is reported. -/
theorem ofText_render_of_ofText {source : String} {l : Lambda} (h : ofText source = .ok l)
    (hlegible : LegibleText source) :
    (1 + l.body.need ≤ nestingLimit → ofText l.render = .ok l ∧ l.equal l = true) ∧
      (nestingLimit < 1 + l.body.need →
        ∃ offset, ofText l.render = .error ⟨offset, .tooDeep⟩) := by
  obtain ⟨hparam, hbody⟩ := reprints_of_ofText h hlegible
  exact ofText_render_of_reprints hparam hbody

/-- A raw name and a double with a point read back. A sign before a sign opens two levels when it is
printed, for itself and for the parentheses around the other. -/
theorem ofText_render_sum_and_signed :
    (ofText "x => x.r#type + 1.5" = .ok (sumLambda (.ofFraction false 3 2)) ∧
      LegibleText "x => x.r#type + 1.5" ∧
      ofText (sumLambda (.ofFraction false 3 2)).render = .ok (sumLambda (.ofFraction false 3 2))) ∧
    ofText (signedText 65) = .ok (signedLambda 65) ∧ LegibleText (signedText 65) ∧
      ∃ offset, ofText (signedLambda 65).render = .error ⟨offset, .tooDeep⟩ := by
  have hsum : ofText "x => x.r#type + 1.5" = .ok (sumLambda (.ofFraction false 3 2)) := by
    have htokens : ∀ c, ofTokens [.ident "x", .symbol .arrow, .ident "x", .symbol .dot,
        .ident "type", .symbol .plus, .literal (.float c)] = .ok (sumLambda c) := by
      intro c
      cbv
    exact ofText_eq_ok_iff.2 ⟨_, by decide +kernel, htokens _⟩
  have hsumLegible : LegibleText "x => x.r#type + 1.5" := by decide +kernel
  have hsigned : ofText (signedText 65) = .ok (signedLambda 65) := ofText_signedText (by decide)
  have hsignedLegible : LegibleText (signedText 65) := by decide +kernel
  have hfits := (ofText_render_of_ofText hsum hsumLegible).1 (by decide)
  have hexceeds := (ofText_render_of_ofText hsigned hsignedLegible).2 (by decide +kernel)
  exact ⟨⟨hsum, hsumLegible, hfits.1⟩, hsigned, hsignedLegible, hexceeds⟩

/-! ### Texts that do not read back -/

/-- **A text reads back** if what is read from it is read again from its printed text. -/
def ReadsBack (source : String) : Prop :=
  ∀ l, ofText source = .ok l → ∃ l', ofText l.render = .ok l' ∧ l'.equal l = true

instance (source : String) : Decidable (ReadsBack source) :=
  match h : ofText source with
  | .error _ => .isTrue fun _ hl => nomatch h.symm.trans hl
  | .ok l =>
    match h' : ofText l.render with
    | .error _ => .isFalse fun hback =>
        let ⟨_, hl', _⟩ := hback l h
        nomatch h'.symm.trans hl'
    | .ok l' => decidable_of_iff (l'.equal l = true)
        ⟨fun heq _ hm => Except.ok.inj (h.symm.trans hm) ▸ ⟨l', h', heq⟩, fun hback =>
          let ⟨_, hm, heq⟩ := hback l h
          Except.ok.inj (h'.symm.trans hm) ▸ heq⟩

/-- **Not every text that is read reads back:** the printed text may be nested too deeply, a raw
name may be a keyword without its mark, a character of a string may be written by its code point,
which is not read, and a double without a point, which is read as an integer and a name. -/
theorem not_readsBack :
    ¬ReadsBack (signedText 65) ∧ ¬ReadsBack "|x| x.r#as" ∧ ¬ReadsBack "|x| \"\u200b\"" ∧
      ¬ReadsBack "|x| 10000000000000000.0" := by
  have hdeep : ¬ReadsBack (signedText 65) := by
    intro hback
    obtain ⟨l, hl, -⟩ := hback _ (ofText_signedText (by decide))
    have hname : IsName (signedLambda 65).param := by decide +kernel
    have hexceeds : nestingLimit < 1 + (signedLambda 65).body.need := by decide +kernel
    obtain ⟨-, htooDeep⟩ := ofText_render_of_reprints hname (reprints_signedLambda 65)
    obtain ⟨offset, herror⟩ := htooDeep hexceeds
    cases hl.symm.trans herror
  exact ⟨hdeep, by decide +kernel⟩

end Lambda

end MemberAccess
