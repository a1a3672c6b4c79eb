import MemberAccess.Proofs.Lambda.Ebnf
import MemberAccess.Proofs.Lambda.Reprint

/-!
# The published grammar

The syntax of lambdas is published as a grammar in extended Backus-Naur form. The texts that are
read are those of this grammar with three changes:

* comparisons may be chained, and associate to the left as all operators between operands do;
* a comma may stand behind the last argument of a call;
* a `<` behind the path of a type always opens type arguments, so a cast to a type without arguments
  can be compared by `<` only if it stands between parentheses.

## Main definitions

* `Rule`, `rules`: the rules of the grammar, in the dialects that the changes make.
* `Lambda.IsSentence`: the texts of a dialect that open no more levels than may be open at a time.

## Main results

* `Lambda.exists_ofText_iff_isSentence`: the texts that are read, and what becomes of deeper ones.
* `Lambda.published_differs`: each change adds or takes away a text.
-/

namespace MemberAccess

open Ebnf

/-! ### The grammar -/

/-- **The rules.** -/
inductive Rule where
  | lambda | expr | or | and | cmp | add | mul | cast | unary | type | applied | primary | args

/-- **The dialects** of the grammar: whether comparisons may be chained, whether a comma may stand
behind the last argument, and whether a `<` behind the path of a type has to open arguments. -/
structure Dialect where
  chained : Bool
  trailing : Bool
  opening : Bool

/-- The dialect that is published. -/
def Dialect.published : Dialect := ⟨false, false, false⟩

/-- The dialect that is read. -/
def Dialect.accepted : Dialect := ⟨true, true, true⟩

namespace Rule

/-- A constant. -/
def literal : Ebnf Rule :=
  .token fun t => match t with
    | .literal _ => true
    | _ => false

/-- Names separated by `::`. -/
def path : Ebnf Rule :=
  ident ++ many (symbols [.colons] ++ ident)

/-- Operands with operators between them. The operand to the right of an operator opens a level. -/
def operands (tighter : Rule) (operators : List Symbol) : Ebnf Rule :=
  rule tighter ++ many (symbols operators ++ deeper (rule tighter))

/-- The operators of comparisons. -/
def comparisons : List Symbol :=
  [.equals, .differs, .less, .greater, .atMost, .atLeast]

/-- Arguments of a type. -/
def typeArguments : Ebnf Rule :=
  symbols [.less] ++ deeper (separated (rule .type) ++ symbols [.greater])

/-- Arguments of a call between parentheses. -/
def callArguments : Ebnf Rule :=
  symbols [.openParen] ++ rule .args ++ symbols [.closeParen]

/-- What is applied to an operand. -/
def application : Ebnf Rule :=
  symbols [.dot] ++ ident ||| symbols [.dot] ++ ident ++ callArguments |||
    symbols [.openBracket] ++ deeper (rule .expr) ++ symbols [.closeBracket]

/-- **The expressions of the rules.** -/
def rules (d : Dialect) : Rule → Ebnf Rule
  | lambda =>
    symbols [.pipe] ++ ident ++ symbols [.pipe] ++ deeper (rule .expr) |||
      ident ++ symbols [.arrow] ++ deeper (rule .expr)
  | expr => rule .or
  | or => operands .and [.orOr]
  | and => operands .cmp [.andAnd]
  | cmp =>
    if d.chained then operands .add comparisons
    else rule .add ++ opt (symbols comparisons ++ deeper (rule .add))
  | add => operands .mul [.plus, .minus]
  | mul => operands .cast [.star, .slash, .percent]
  | cast => rule .unary ++ many (token (· = .keywordAs) ++ rule .type)
  | unary => symbols [.minus, .bang] ++ deeper (rule .unary) ||| rule .applied
  | type =>
    if d.opening then path ++ (typeArguments ||| notBefore .less) else path ++ opt typeArguments
  | applied => rule .primary ++ many application
  | primary =>
    literal ||| ident ||| ident ++ many1 (symbols [.colons] ++ ident) ||| path ++ callArguments |||
      symbols [.openParen] ++ deeper (rule .expr) ++ symbols [.closeParen]
  | args =>
    if d.trailing then opt (separated (deeper (rule .expr)) ++ opt (symbols [.comma]))
    else opt (separated (deeper (rule .expr)))

end Rule

/-! ### Phrases have trees -/

/-- Tokens that have a tree, over each parameter. -/
def Nonterminal.Derivable (n : Nonterminal) (m : Nat) (ts rest : List Token) : Prop :=
  ∀ param, ∃ tree, Derives param n m ts tree rest

namespace Rule

/-- What a phrase of a rule has, if it is read. Arguments have trees only before the parenthesis
that closes them. -/
def Holds : Rule → (levels : Nat) → List Token → List Token → Prop
  | lambda, m, ts, rest => rest = [] → ∃ l, Lambda.Spells m ts l
  | expr, m, ts, rest | or, m, ts, rest => (Nonterminal.level 1).Derivable m ts rest
  | and, m, ts, rest => (Nonterminal.level 2).Derivable m ts rest
  | cmp, m, ts, rest => (Nonterminal.level 3).Derivable m ts rest
  | add, m, ts, rest => (Nonterminal.level 4).Derivable m ts rest
  | mul, m, ts, rest => (Nonterminal.level 5).Derivable m ts rest
  | cast, m, ts, rest => (Nonterminal.level castLevel).Derivable m ts rest
  | unary, m, ts, rest => Nonterminal.prefixed.Derivable m ts rest
  | type, m, ts, rest => ∃ text, SpellsType .single m ts text rest
  | applied, m, ts, rest => Nonterminal.applied.Derivable m ts rest
  | primary, m, ts, rest => Nonterminal.atom.Derivable m ts rest
  | args, m, ts, rest =>
    ∀ more, rest = .symbol .closeParen :: more → Nonterminal.arguments.Derivable m ts more

variable {m : Nat} {ts rest : List Token} {phrase : Rule → Nat → List Token → List Token → Prop}

/-- A literal is matched by one token. -/
@[simp]
theorem matches_literal : Matches phrase literal m ts rest ↔
    m = 0 ∧ ∃ value, ts = .literal value :: rest := by
  rw [literal, matches_token]
  refine and_congr_right fun _ => ⟨?_, ?_⟩
  · rintro ⟨t, ht, rfl⟩
    cases t with
    | literal value => exact ⟨value, rfl⟩
    | _ => cases ht
  · rintro ⟨value, rfl⟩
    exact ⟨_, rfl, rfl⟩

/-- A path has a text and opens no level. -/
theorem spellsPath_of_matches (h : Matches phrase path m ts rest) :
    m = 0 ∧ ∃ text, SpellsPath ts text rest := by
  simp only [path, matches_ident_append] at h
  obtain ⟨name, more, rfl, hmany⟩ := h
  rw [← Nat.zero_max m]
  refine hmany.fold (P := fun m rest => m = 0 ∧ ∃ text, SpellsPath _ text rest) ?_
    ⟨rfl, name, .name⟩
  rintro _ _ between rest ⟨rfl, text, htext⟩ hturn
  simp only [matches_symbols_append, matches_ident, List.mem_singleton] at hturn
  obtain ⟨_, rfl, _, rfl, rfl, name, rfl⟩ := hturn
  exact ⟨rfl, _, htext.segment⟩

/-- A path is the parameter or a free name. -/
theorem derivable_of_spellsPath {text : String} (h : SpellsPath ts text rest) :
    Nonterminal.atom.Derivable 0 ts rest := by
  intro param
  by_cases hbinds : param = "_"
  · exact ⟨_, .free h (.inl hbinds)⟩
  by_cases htext : text = param
  · exact ⟨_, .parameter (htext ▸ h) hbinds⟩
  · exact ⟨_, .free h (.inr htext)⟩

/-- Operands with operators of a level between them. -/
theorem derivable_of_operands (tighter : Rule) (k : Nat) {operators : List Symbol}
    (htighter : ∀ m ts rest, tighter.Holds m ts rest →
      (Nonterminal.level (k + 1)).Derivable m ts rest)
    (hoperators : ∀ s ∈ operators, s.binaryOp?.map BinaryOp.level = some k)
    (h : Matches Holds (operands tighter operators) m ts rest) :
    (Nonterminal.level k).Derivable m ts rest := by
  simp only [operands, matches_append, matches_rule] at h
  obtain ⟨m, l, between, hfirst, hmany, rfl⟩ := h
  intro param
  obtain ⟨e, hfirst⟩ := htighter _ _ _ hfirst param
  refine hmany.fold (P := fun m rest => ∃ e, Derives param (.level k) m ts e rest) ?_
    ⟨e, .ofTighter hfirst⟩
  rintro m _ between rest ⟨left, hleft⟩ hturn
  simp only [matches_symbols_append, matches_deeper, matches_rule] at hturn
  obtain ⟨s, hs, _, rfl, j, hright, rfl⟩ := hturn
  obtain ⟨op, hop, rfl⟩ := Option.map_eq_some_iff.1 (hoperators s hs)
  obtain ⟨right, hright⟩ := htighter _ _ _ hright param
  exact ⟨_, .binary (t := .symbol s) hop hleft hright⟩

/-- The rule of casts says what holds of casts. -/
theorem holds_cast (h : Matches Holds (rules .accepted .cast) m ts rest) :
    cast.Holds m ts rest := by
  simp only [rules, matches_append, matches_rule] at h
  obtain ⟨m, k, between, hoperand, hmany, rfl⟩ := h
  intro param
  obtain ⟨e, hoperand⟩ := hoperand param
  refine hmany.fold (P := fun m rest => ∃ e, Derives param (.level castLevel) m ts e rest) ?_
    ⟨e, .ofPrefixed hoperand⟩
  rintro m k between rest ⟨left, hleft⟩ hturn
  simp only [matches_token_append, matches_rule, decide_eq_true_eq] at hturn
  obtain ⟨_, _, rfl, rfl, text, htype⟩ := hturn
  exact ⟨_, .cast hleft htype⟩

/-- Arguments of a type have texts. -/
theorem spellsType_of_matches (h : Matches Holds typeArguments m ts rest) :
    ∃ k more text, m = k + 1 ∧ ts = .symbol .less :: more ∧
      SpellsType .arguments k more text rest := by
  simp only [typeArguments, matches_symbols_append, matches_deeper, matches_append_symbols,
    List.mem_singleton] at h
  obtain ⟨_, rfl, more, rfl, k, ⟨_, rfl, hlist⟩, rfl⟩ := h
  have htext : ∃ text, SpellsType .arguments k more text rest := by
    refine hlist.foldr (P := fun m ts => ∃ text, SpellsType .arguments m ts text rest) ?_ ?_
    · intro m ts htype
      obtain ⟨text, htype⟩ := matches_rule.1 htype
      exact ⟨_, .last htype⟩
    · rintro m k ts more htype ⟨args, hargs⟩
      obtain ⟨text, htype⟩ := matches_rule.1 htype
      exact ⟨_, .more htype hargs⟩
  obtain ⟨text, htext⟩ := htext
  exact ⟨k, more, text, rfl, rfl, htext⟩

/-- The rule of types says what holds of types. -/
theorem holds_type (h : Matches Holds (rules .accepted .type) m ts rest) :
    type.Holds m ts rest := by
  simp only [rules, Dialect.accepted, if_true, matches_append, matches_or, matches_notBefore] at h
  obtain ⟨m, k, between, hpath, hbehind, rfl⟩ := h
  obtain ⟨rfl, text, hpath⟩ := spellsPath_of_matches hpath
  rw [Nat.zero_max]
  rcases hbehind with harguments | ⟨rfl, rfl, hless⟩
  · obtain ⟨k, more, args, rfl, rfl, hargs⟩ := spellsType_of_matches harguments
    exact ⟨_, .applied hpath hargs⟩
  · exact ⟨text, .bare hpath hless⟩

/-- The rule of arguments says what holds of arguments. -/
theorem holds_args (h : Matches Holds (rules .accepted .args) m ts rest) :
    args.Holds m ts rest := by
  rintro more rfl param
  simp only [rules, Dialect.accepted, if_true, matches_opt, matches_append, matches_symbols,
    List.mem_singleton] at h
  rcases h with ⟨rfl, rfl⟩ | ⟨m, k, between, hlist, hcomma, rfl⟩
  · exact ⟨[], .noArgument⟩
  have hk : k = 0 := hcomma.elim And.left And.left
  rw [hk, Nat.max_zero]
  refine hlist.foldr (P := fun m ts => ∃ args, Derives param .arguments m ts args more) ?_ ?_
  · intro m ts h
    obtain ⟨m, harg, rfl⟩ := matches_deeper.1 h
    obtain ⟨arg, harg⟩ := matches_rule.1 harg param
    rcases hcomma with ⟨-, rfl⟩ | ⟨-, _, rfl, rfl⟩
    · exact ⟨_, .lastArgument harg⟩
    · exact ⟨_, Derives.argument harg .noArgument⟩
  · rintro m k ts more' h ⟨args, hargs⟩
    obtain ⟨m, harg, rfl⟩ := matches_deeper.1 h
    obtain ⟨arg, harg⟩ := matches_rule.1 harg param
    exact ⟨_, .argument harg hargs⟩

/-- Arguments of a call have trees. -/
theorem derivable_of_callArguments (h : Matches Holds callArguments m ts rest) :
    ∃ more, ts = .symbol .openParen :: more ∧ Nonterminal.arguments.Derivable m more rest := by
  simp only [callArguments, matches_symbols_append, matches_append_symbols, matches_rule,
    List.mem_singleton] at h
  obtain ⟨_, rfl, _, rfl, more, rfl, hargs⟩ := h
  exact ⟨more, rfl, hargs _ rfl⟩

/-- The rule of applications says what holds of them. -/
theorem holds_applied (h : Matches Holds (rules .accepted .applied) m ts rest) :
    applied.Holds m ts rest := by
  simp only [rules, matches_append, matches_rule] at h
  obtain ⟨m, k, between, hatom, hmany, rfl⟩ := h
  intro param
  obtain ⟨e, hatom⟩ := hatom param
  refine hmany.fold (P := fun m rest => ∃ e, Derives param .applied m ts e rest) ?_
    ⟨e, .ofAtom hatom⟩
  rintro m k between rest ⟨left, hleft⟩ hturn
  simp only [application, matches_or, matches_assoc, matches_symbols_append, matches_ident,
    matches_ident_append, matches_append_symbols, matches_deeper, matches_rule,
    List.mem_singleton] at hturn
  rcases hturn with (⟨_, rfl, _, rfl, rfl, name, rfl⟩ | ⟨_, rfl, _, rfl, name, _, rfl, hargs⟩) |
    ⟨_, rfl, _, rfl, _, rfl, j, hposition, rfl⟩
  · rw [Nat.max_zero]
    exact ⟨_, .member hleft⟩
  · obtain ⟨more, rfl, hlist⟩ := derivable_of_callArguments hargs
    obtain ⟨args, hlist⟩ := hlist param
    exact ⟨_, .method hleft hlist⟩
  · obtain ⟨position, hposition⟩ := hposition param
    exact ⟨_, .index hleft hposition⟩

/-- The rule of primary expressions says what holds of them. -/
theorem holds_primary (h : Matches Holds (rules .accepted .primary) m ts rest) :
    primary.Holds m ts rest := by
  simp only [rules, matches_or] at h
  rcases h with (((hvalue | hname) | hpath) | hcall) | hparens
  · obtain ⟨rfl, value, rfl⟩ := matches_literal.1 hvalue
    exact fun _ => ⟨_, .constant⟩
  · obtain ⟨rfl, name, rfl⟩ := matches_ident.1 hname
    exact derivable_of_spellsPath .name
  · rw [matches_append, many1] at hpath
    obtain ⟨k, l, between, hname, hmany, rfl⟩ := hpath
    cases hmany with
    | seq hturn hmany =>
        obtain ⟨hlevels, text, hpath⟩ := spellsPath_of_matches (.seq hname (.next hturn hmany))
        rw [hlevels]
        exact derivable_of_spellsPath hpath
  · rw [matches_append] at hcall
    obtain ⟨_, _, _, hpath, hargs, rfl⟩ := hcall
    obtain ⟨rfl, text, hpath⟩ := spellsPath_of_matches hpath
    obtain ⟨more, rfl, hlist⟩ := derivable_of_callArguments hargs
    intro param
    obtain ⟨args, hlist⟩ := hlist param
    rw [Nat.zero_max]
    exact ⟨_, .call hpath hlist⟩
  · simp only [matches_symbols_append, matches_append_symbols, matches_deeper, matches_rule,
      List.mem_singleton] at hparens
    obtain ⟨_, rfl, _, rfl, _, rfl, j, hinner, rfl⟩ := hparens
    intro param
    obtain ⟨inner, hinner⟩ := hinner param
    exact ⟨_, .parens hinner⟩

/-- The rule of unary expressions says what holds of them. -/
theorem holds_unary (h : Matches Holds (rules .accepted .unary) m ts rest) :
    unary.Holds m ts rest := by
  simp only [rules, matches_or, matches_symbols_append, matches_deeper, matches_rule] at h
  intro param
  rcases h with ⟨s, hs, _, rfl, j, hoperand, rfl⟩ | happlied
  · have hunary : ∀ s ∈ [Symbol.minus, .bang], s.unaryOp?.isSome = true := by decide
    obtain ⟨op, hop⟩ := Option.isSome_iff_exists.1 (hunary s hs)
    obtain ⟨operand, hoperand⟩ := hoperand param
    exact ⟨_, .unary (t := .symbol s) hop hoperand⟩
  · obtain ⟨e, happlied⟩ := happlied param
    exact ⟨e, .ofApplied happlied⟩

/-- The rule of lambdas says what holds of lambdas. -/
theorem holds_lambda (h : Matches Holds (rules .accepted .lambda) m ts rest) :
    lambda.Holds m ts rest := by
  rintro rfl
  simp only [rules, matches_or, matches_assoc, matches_symbols_append, matches_ident_append,
    matches_deeper, matches_rule, List.mem_singleton] at h
  rcases h with ⟨_, rfl, _, rfl, name, _, rfl, _, rfl, _, rfl, j, hbody, rfl⟩ |
    ⟨name, _, rfl, _, rfl, _, rfl, j, hbody, rfl⟩
  · obtain ⟨body, hbody⟩ := hbody name
    exact ⟨_, .bars hbody⟩
  · obtain ⟨body, hbody⟩ := hbody name
    exact ⟨_, .arrow hbody⟩

/-- **The rules are read as the grammar says.** -/
theorem holds_of_matches (r : Rule) (m : Nat) (ts rest : List Token)
    (h : Matches Holds (rules .accepted r) m ts rest) : r.Holds m ts rest := by
  cases r with
  | lambda => exact holds_lambda h
  | expr => exact (matches_rule (r := Rule.or)).1 h
  | or => exact derivable_of_operands .and 1 (fun _ _ _ h => h) (by decide) h
  | and => exact derivable_of_operands .cmp 2 (fun _ _ _ h => h) (by decide) h
  | cmp => exact derivable_of_operands .add 3 (fun _ _ _ h => h) (by decide) h
  | add => exact derivable_of_operands .mul 4 (fun _ _ _ h => h) (by decide) h
  | mul => exact derivable_of_operands .cast 5 (fun _ _ _ h => h) (by decide) h
  | cast => exact holds_cast h
  | unary => exact holds_unary h
  | type => exact holds_type h
  | applied => exact holds_applied h
  | primary => exact holds_primary h
  | args => exact holds_args h

end Rule

/-! ### Trees are phrases -/

/-- A phrase of the dialect that is read. -/
abbrev Rule.IsPhrase : Rule → (levels : Nat) → List Token → List Token → Prop :=
  Phrase (rules .accepted)

/-- The rule of a level. -/
def Rule.ofLevel : Nat → Rule
  | 0 | 1 => .or
  | 2 => .and
  | 3 => .cmp
  | 4 => .add
  | 5 => .mul
  | _ + 6 => .cast

/-- The phrases of a nonterminal. Arguments end before the parenthesis that closes them. -/
def Nonterminal.IsPhrase : Nonterminal → (levels : Nat) → List Token → List Token → Prop
  | arguments, m, ts, rest => Rule.args.IsPhrase m ts (.symbol .closeParen :: rest)
  | atom, m, ts, rest => Rule.primary.IsPhrase m ts rest
  | applied, m, ts, rest => Rule.applied.IsPhrase m ts rest
  | prefixed, m, ts, rest => Rule.unary.IsPhrase m ts rest
  | level k, m, ts, rest => (Rule.ofLevel k).IsPhrase m ts rest

/-- The phrases of the parts of types. Arguments end with the `>` that closes them. -/
def TypePart.IsPhrase : TypePart → (levels : Nat) → List Token → List Token → Prop
  | single, m, ts, rest => Rule.type.IsPhrase m ts rest
  | arguments, m, ts, rest =>
    Matches Rule.IsPhrase (separated (rule .type)) m ts (.symbol .greater :: rest)

namespace Rule

variable {m k : Nat} {ts more rest : List Token}

/-- The tokens of a path. -/
theorem matches_path {text : String} (h : SpellsPath ts text rest) :
    Matches IsPhrase path 0 ts rest := by
  induction h with
  | name => exact .seq (matches_ident.2 ⟨rfl, _, rfl⟩) .done
  | segment _ ih =>
      simp only [path, matches_ident_append] at ih ⊢
      obtain ⟨name, more, rfl, hmany⟩ := ih
      refine ⟨name, more, rfl, hmany.snoc (k := 0) ?_⟩
      simp

/-- A path stands where an operand is expected. -/
theorem isPhrase_path {text : String} (h : SpellsPath ts text rest) :
    primary.IsPhrase 0 ts rest := by
  have hpath := matches_path h
  simp only [path, matches_ident_append] at hpath
  obtain ⟨name, more, rfl, hmany⟩ := hpath
  refine phrase_iff.2 ?_
  simp only [rules, matches_or, matches_ident_append]
  generalize hlevels : 0 = levels at hmany
  cases hmany with
  | done => exact .inl (.inl (.inl (.inr (matches_ident.2 ⟨rfl, name, rfl⟩))))
  | next hturn hmany => exact .inl (.inl (.inr ⟨name, more, rfl, hlevels ▸ .seq hturn hmany⟩))

/-- The tokens of the arguments of a type. -/
theorem matches_typeArguments (h : TypePart.arguments.IsPhrase m ts rest) :
    Matches IsPhrase typeArguments (m + 1) (.symbol .less :: ts) rest := by
  simpa [typeArguments, TypePart.IsPhrase] using h

/-- **The tokens of types** are phrases. -/
theorem isPhrase_type {part : TypePart} {text : String} (h : SpellsType part m ts text rest) :
    part.IsPhrase m ts rest := by
  induction h with
  | bare hpath hless => exact .intro (.seq (matches_path hpath) (.right (.notBefore hless)))
  | applied hpath _ ih =>
      rw [← Nat.zero_max (_ + 1)]
      exact .intro (.seq (matches_path hpath) (.left (matches_typeArguments ih)))
  | last _ ih => exact .single (.rule ih)
  | more _ _ ihtype ihargs => exact .entry (.rule ihtype) ihargs

/-- The tokens of the arguments of a call. -/
theorem matches_callArguments (h : args.IsPhrase m ts (.symbol .closeParen :: rest)) :
    Matches IsPhrase callArguments m (.symbol .openParen :: ts) rest := by
  simpa [callArguments] using h

/-- An argument may stand before others, or before a comma that none follows. -/
theorem isPhrase_argument (harg : expr.IsPhrase m ts (.symbol .comma :: more))
    (hargs : args.IsPhrase k more (.symbol .closeParen :: rest)) :
    args.IsPhrase (max (m + 1) k) ts (.symbol .closeParen :: rest) := by
  rw [IsPhrase, phrase_iff] at hargs ⊢
  simp only [rules, Dialect.accepted, if_true, matches_opt] at hargs ⊢
  have hentry : Matches IsPhrase (deeper (rule .expr)) (m + 1) ts (.symbol .comma :: more) :=
    .deeper (.rule harg)
  refine .inr ?_
  rcases hargs with ⟨rfl, rfl⟩ | hlist
  · exact .seq hentry.single (.present (by simp))
  · rw [matches_append] at hlist ⊢
    obtain ⟨k, l, between, hlist, hcomma, rfl⟩ := hlist
    exact ⟨_, l, between, hentry.entry hlist, hcomma, (Nat.max_assoc _ _ _).symm⟩

/-- An operator of a level is one of the rule, whose operands are of the next level. -/
theorem rules_ofLevel {s : Symbol} {op : BinaryOp} (h : s.binaryOp? = some op) :
    ∃ operators, s ∈ operators ∧
      rules .accepted (ofLevel op.level) = operands (ofLevel (op.level + 1)) operators := by
  cases s <;> cases h <;> exact ⟨_, by decide, rfl⟩

/-- A phrase of a level is one of every looser level. -/
theorem isPhrase_ofLevel (h : (ofLevel (k + 1)).IsPhrase m ts rest) :
    (ofLevel k).IsPhrase m ts rest := by
  match k with
  | 0 => exact h
  | 1 | 2 | 3 | 4 | 5 => exact .first rfl (.rule h)
  | _ + 6 => exact h

end Rule

/-- **What has a tree is a phrase.** -/
theorem Derives.isPhrase {param : String} {n : Nonterminal} {m : Nat} {ts rest : List Token}
    {tree : n.Tree} (h : Derives param n m ts tree rest) : n.IsPhrase m ts rest := by
  have hexpr : ∀ {m : Nat} {ts rest : List Token}, (Nonterminal.level 1).IsPhrase m ts rest →
      Rule.expr.IsPhrase m ts rest := fun h => .intro (.rule h)
  induction h with
  | noArgument => exact .intro .absent
  | lastArgument _ ih =>
      rw [← Nat.max_zero (_ + 1)]
      exact .intro (.present (.seq (.single (.deeper (.rule (hexpr ih)))) .absent))
  | argument _ _ ih ihargs => exact Rule.isPhrase_argument (hexpr ih) ihargs
  | constant => exact .intro (.left (.left (.left (.left (Rule.matches_literal.2 ⟨rfl, _, rfl⟩)))))
  | parameter hpath _ => exact Rule.isPhrase_path hpath
  | free hpath _ => exact Rule.isPhrase_path hpath
  | @call m _ _ _ _ _ hpath _ ih =>
      rw [← Nat.zero_max m]
      exact .intro (.left (.right (.seq (Rule.matches_path hpath) (Rule.matches_callArguments ih))))
  | parens _ ih =>
      refine .intro (.right ?_)
      simpa using hexpr ih
  | ofAtom _ ih => exact .first rfl (.rule ih)
  | @member m _ _ _ name _ ih =>
      rw [← Nat.max_zero m]
      refine .append (b := Rule.application) rfl ih (.left (.left ?_))
      simp
  | method _ _ ih ihargs =>
      refine .append (b := Rule.application) rfl ih (.left (.right ?_))
      simpa using Rule.matches_callArguments ihargs
  | index _ _ ih ihposition =>
      refine .append (b := Rule.application) rfl ih (.right ?_)
      simpa using hexpr ihposition
  | ofApplied _ ih => exact .intro (.right (.rule ih))
  | @unary _ t _ _ op _ hop _ ih =>
      refine .intro (.left ?_)
      cases t with
      | symbol s => cases s <;> cases hop <;> simpa [Nonterminal.IsPhrase] using ih
      | _ => cases hop
  | ofPrefixed _ ih => exact .first rfl (.rule ih)
  | cast _ htype ih =>
      refine .append (r := Rule.cast) rfl ih ?_
      simpa [TypePart.IsPhrase] using Rule.isPhrase_type htype
  | ofTighter _ ih => exact Rule.isPhrase_ofLevel ih
  | @binary _ _ t _ _ _ op _ _ hop _ _ ih ihright =>
      cases t with
      | symbol s =>
          obtain ⟨operators, hs, hrule⟩ := Rule.rules_ofLevel hop
          refine .append hrule ih ?_
          simpa [hs, Nonterminal.IsPhrase] using ihright
      | _ => cases hop

/-! ### Sentences -/

namespace Lambda

/-- **The tokens of a lambda** are a phrase of the grammar. -/
theorem exists_spells_iff_isPhrase {m : Nat} {ts : List Token} :
    (∃ l, Spells m ts l) ↔ Rule.lambda.IsPhrase m ts [] := by
  constructor
  · rintro ⟨l, h⟩
    refine .intro ?_
    cases h with
    | bars h =>
        have hbody : Rule.expr.IsPhrase _ _ _ := .intro (.rule h.isPhrase)
        exact .left (by simpa using hbody)
    | arrow h =>
        have hbody : Rule.expr.IsPhrase _ _ _ := .intro (.rule h.isPhrase)
        exact .right (by simpa using hbody)
  · intro h
    exact h.least Rule.holds_of_matches rfl

/-- **The texts of a dialect** that open no more levels than may be open at a time. -/
def IsSentence (d : Dialect) (source : String) : Prop :=
  ∃ ts m, (scan source.toList).map (List.map Placed.token) = .ok ts ∧ m ≤ nestingLimit ∧
    Phrase (Rule.rules d) .lambda m ts []

/-- **The texts that are read** are those of the accepted dialect. A text that would be one if it
did not open too many levels is reported as too deep. -/
theorem exists_ofText_iff_isSentence (source : String) :
    ((∃ l, ofText source = .ok l) ↔ IsSentence .accepted source) ∧
      ∀ ts m, (scan source.toList).map (List.map Placed.token) = .ok ts → nestingLimit < m →
        Phrase (Rule.rules .accepted) .lambda m ts [] →
        ∃ offset, ofText source = .error ⟨offset, .tooDeep⟩ := by
  refine ⟨⟨?_, ?_⟩, fun ts m hts hexceeds hphrase => ?_⟩
  · rintro ⟨l, h⟩
    obtain ⟨ts, hscan, htokens⟩ := ofText_eq_ok_iff.1 h
    obtain ⟨m, hlevels, hspells⟩ := spells_of_ofTokens htokens
    exact ⟨ts, m, hscan, hlevels, exists_spells_iff_isPhrase.1 ⟨l, hspells⟩⟩
  · rintro ⟨ts, m, hscan, hlevels, hphrase⟩
    obtain ⟨l, hspells⟩ := exists_spells_iff_isPhrase.2 hphrase
    exact ⟨l, ofText_eq_ok_iff.2 ⟨ts, hscan, hspells.reads.fits hlevels⟩⟩
  · obtain ⟨l, hspells⟩ := exists_spells_iff_isPhrase.2 hphrase
    obtain ⟨rest, hdeep⟩ := hspells.reads.exceeds hexceeds
    cases hscan : scan source.toList with
    | error e =>
        rw [hscan] at hts
        cases hts
    | ok tokens =>
        rw [hscan] at hts
        obtain rfl := Except.ok.inj hts
        exact ⟨_, (ofText_eq_error_iff hscan).2 ⟨_, hdeep, rfl⟩⟩

/-- A name behind 127 signs is read, and behind one more it is nested too deeply. -/
theorem signedText_at_limit :
    (∃ l, ofText (signedText 127) = .ok l) ∧
      ∃ offset, ofText (signedText 128) = .error ⟨offset, .tooDeep⟩ := by
  have hphrase : ∀ n, Rule.lambda.IsPhrase (n + 1) (.symbol .pipe :: .ident "x" :: .symbol .pipe ::
      (List.replicate n (.symbol .minus) ++ [.ident "x"])) [] :=
    fun n => exists_spells_iff_isPhrase.1 ⟨_, spells_signedLambda n⟩
  constructor
  · exact (exists_ofText_iff_isSentence _).1.2
      ⟨_, 128, scan_signedText 127, by decide, hphrase 127⟩
  · exact (exists_ofText_iff_isSentence _).2 _ 129 (scan_signedText 128) (by decide) (hphrase 128)

/-- What can not remain behind a lambda makes no sentence. -/
theorem not_isSentence {d : Dialect} {source : String} {ts : List Token} (steps : Nat)
    (hscan : (scan source.toList).map (List.map Placed.token) = .ok ts)
    (hno : [] ∉ remainders (Rule.rules d) steps (rule .lambda) ts) : ¬IsSentence d source := by
  rintro ⟨us, m, hus, -, hphrase⟩
  obtain rfl := Except.ok.inj (hscan.symm.trans hus)
  exact hno (mem_remainders (.rule hphrase) steps)

/-- The tokens of a lambda `|x| …`. -/
def overX (body : List Token) : List Token :=
  .symbol .pipe :: .ident "x" :: .symbol .pipe :: body

/-- A cast to a type without arguments is compared by `<` in the published dialect. -/
theorem isSentence_castLess : IsSentence .published "|x| x as i64 < x" := by
  have hname : ∀ rest, Matches (Phrase (Rule.rules .published)) ident 0 (.ident "x" :: rest) rest :=
    fun rest => matches_ident.2 ⟨rfl, "x", rfl⟩
  have hunary : ∀ rest, Phrase (Rule.rules .published) .unary 0 (.ident "x" :: rest) rest :=
    fun rest => .intro (.right (.rule (.first rfl (.rule (.intro
      (.left (.left (.left (.right (hname rest))))))))))
  have hadd : ∀ {ts rest}, Phrase (Rule.rules .published) .cast 0 ts rest →
      Phrase (Rule.rules .published) .add 0 ts rest :=
    fun h => .first rfl (.rule (.first rfl (.rule h)))
  have htype : ∀ rest, Phrase (Rule.rules .published) .type 0 (.ident "i64" :: rest) rest :=
    fun rest => .intro (.seq (.seq (matches_ident.2 ⟨rfl, "i64", rfl⟩) .done) .absent)
  have hcast : ∀ rest, Phrase (Rule.rules .published) .cast 0
      (.ident "x" :: .keywordAs :: .ident "i64" :: rest) rest := by
    intro rest
    refine .append (r := Rule.cast) (k := 0) rfl (.first rfl (.rule (hunary _))) ?_
    simpa using htype rest
  have hcmp : Phrase (Rule.rules .published) .cmp 1
      [.ident "x", .keywordAs, .ident "i64", .symbol .less, .ident "x"] [] := by
    refine .intro (.seq (m := 0) (k := 1) (.rule (hadd (hcast _))) (.present ?_))
    simpa [Rule.comparisons] using hadd (.first rfl (.rule (hunary [])))
  have hexpr : Phrase (Rule.rules .published) .expr 1
      [.ident "x", .keywordAs, .ident "i64", .symbol .less, .ident "x"] [] :=
    .intro (.rule (.first rfl (.rule (.first rfl (.rule hcmp)))))
  refine ⟨overX [.ident "x", .keywordAs, .ident "i64", .symbol .less, .ident "x"], 2,
    by decide +kernel, by decide, .intro (.left ?_)⟩
  simpa [overX] using hexpr

/-- **The published dialect is another one.** Chained comparisons and a comma behind the last
argument are not published, yet read; and a cast to a type without arguments before a `<` is
published, yet not read. -/
theorem published_differs :
    ((∃ l, ofText "|x| x < x < x" = .ok l) ∧ ¬IsSentence .published "|x| x < x < x") ∧
      ((∃ l, ofText "|x| f(x,)" = .ok l) ∧ ¬IsSentence .published "|x| f(x,)") ∧
      (∀ l, ofText "|x| x as i64 < x" ≠ .ok l) ∧ IsSentence .published "|x| x as i64 < x" := by
  have hchain : (scan "|x| x < x < x".toList).map (List.map Placed.token) =
      .ok (overX [.ident "x", .symbol .less, .ident "x", .symbol .less, .ident "x"]) := by
    decide +kernel
  have hcall : (scan "|x| f(x,)".toList).map (List.map Placed.token) =
      .ok (overX [.ident "f", .symbol .openParen, .ident "x", .symbol .comma,
        .symbol .closeParen]) := by
    decide +kernel
  have hcast : (scan "|x| x as i64 < x".toList).map (List.map Placed.token) =
      .ok (overX [.ident "x", .keywordAs, .ident "i64", .symbol .less, .ident "x"]) := by
    decide +kernel
  refine ⟨⟨⟨⟨"x", .binary .lt (.binary .lt (.parameter "x") (.parameter "x")) (.parameter "x")⟩,
    ofText_eq_ok_iff.2 ⟨_, hchain, by cbv⟩⟩, not_isSentence 100 hchain (by decide +kernel)⟩,
    ⟨⟨⟨"x", .call "f" [.parameter "x"]⟩, ofText_eq_ok_iff.2 ⟨_, hcall, by cbv⟩⟩,
      not_isSentence 100 hcall (by decide +kernel)⟩, fun l h => ?_, isSentence_castLess⟩
  obtain ⟨ts, hscan, htokens⟩ := ofText_eq_ok_iff.1 h
  obtain rfl := Except.ok.inj (hcast.symm.trans hscan)
  have hrejected : ofTokens (overX [.ident "x", .keywordAs, .ident "i64", .symbol .less,
      .ident "x"]) = .error ⟨[], .expected .typeArgumentEnd none⟩ := by cbv
  cases hrejected.symm.trans htokens

end Lambda

end MemberAccess
