import Mathlib.Data.List.Chain
import MemberAccess.Path.Spec
import MemberAccess.Proofs.Lambda.Reprint

/-!
# Writing member chains

Every chain of member accesses can be written as a text. Each name in it may be written bare, unless
it is a keyword or a truth value, or behind the mark of a raw name; and blanks may stand between all
tokens, at the beginning and at the end. The names are read from the text as they are, however many
there are: a chain opens no levels of nesting.

Where no blank stands between two tokens, the first one must end on its own. In a chain symbols and
names alternate, and so it does.

Conversely, the names of a path that is read from a text are tokens of it, so they are identifiers.
A name that is none has no text, although a lambda may be built with it.

## Main definitions

* `Token.WrittenAs`: the texts of a symbol or a name.
* `Spaced`: the texts of some tokens, with blanks between them.
* `Lambda.heads`, `chainTokens`: the tokens of a chain.

## Main results

* `Spaced.scans`: a text of symbols and names in turn is split into them.
* `PathSpec.memberNames_of_spaced`: the names of a chain are read from its texts.
* `PathSpec.isIdentifier_of_memberNames`: the names that are read from a text are identifiers.
-/

namespace MemberAccess

open Text

/-! ### Texts of tokens -/

/-- **The texts of a symbol or a name.** A bare name is no keyword and no truth value. -/
inductive Token.WrittenAs : Token → List Char → Prop
  | symbol (s : Symbol) : WrittenAs (.symbol s) s.chars
  | bare {name : String} (h : IsName name) : WrittenAs (.ident name) name.toList
  | raw {name : String} (h : IsIdentifier name.toList) :
      WrittenAs (.ident name) ('r' :: '#' :: name.toList)

/-- **The texts of some tokens,** with blanks before, between and behind them. -/
inductive Spaced : List Token → List Char → Prop
  | done {gap : List Char} (hgap : ∀ c ∈ gap, isBlank c = true) : Spaced [] gap
  | next {gap piece text : List Char} {t : Token} {ts : List Token}
      (hgap : ∀ c ∈ gap, isBlank c = true) (ht : t.WrittenAs piece) (hts : Spaced ts text) :
      Spaced (t :: ts) (gap ++ piece ++ text)

/-- Tokens that have texts have one together. -/
theorem Spaced.exists_text {ts : List Token} (h : ∀ t ∈ ts, ∃ piece, t.WrittenAs piece) :
    ∃ text, Spaced ts text := by
  induction ts with
  | nil => exact ⟨[], .done fun _ hc => (nomatch hc)⟩
  | cons t ts ih =>
      obtain ⟨⟨piece, ht⟩, hts⟩ := List.forall_mem_cons.1 h
      obtain ⟨text, htext⟩ := ih hts
      exact ⟨[] ++ piece ++ text, .next (fun _ hc => (nomatch hc)) ht htext⟩

/-! ### What follows a token -/

/-- Whether a token is a symbol. -/
def Token.isSymbol : Token → Bool
  | symbol _ => true
  | _ => false

/-- A text begins with a blank or with its first token. -/
theorem Spaced.head_cases {ts : List Token} {text : List Char} (h : Spaced ts text) {c : Char}
    (hc : text.head? = some c) :
    isBlank c = true ∨ ∃ t piece, ts.head? = some t ∧ t.WrittenAs piece ∧
      piece.head? = some c := by
  cases h with
  | done hgap => exact .inl (hgap c (List.mem_of_head? hc))
  | @next gap piece text t ts hgap ht _ =>
      cases gap with
      | cons d gap =>
          obtain rfl : d = c := Option.some.inj hc
          exact .inl (hgap d List.mem_cons_self)
      | nil =>
          have hpiece : piece ≠ [] := by
            cases ht with
            | symbol s => cases s <;> exact List.cons_ne_nil _ _
            | bare h =>
                obtain ⟨d, more, hchars, -⟩ := h.exists_cons
                exact hchars ▸ List.cons_ne_nil _ _
            | raw _ => exact List.cons_ne_nil _ _
          rw [List.nil_append, List.head?_append_of_ne_nil _ hpiece] at hc
          exact .inr ⟨t, piece, rfl, ht, hc⟩

/-- A blank belongs to no word. -/
theorem continuesIdentifier_of_isBlank {c : Char} (h : isBlank c = true) :
    continuesIdentifier c = false ∧ c ≠ '#' := by
  simp only [isBlank, Bool.or_eq_true, decide_eq_true_eq] at h
  rcases h with ((rfl | rfl) | rfl) | rfl <;> decide

/-- A symbol begins with a character that belongs to no word. -/
theorem Symbol.continuesIdentifier_head (s : Symbol) {c : Char} (h : s.chars.head? = some c) :
    continuesIdentifier c = false ∧ c ≠ '#' := by
  cases s <;> obtain rfl := Option.some.inj h <;> decide

/-- A text with a symbol in front, or with no token, ends the word before it. -/
theorem Spaced.endsWord {ts : List Token} {text : List Char} (h : Spaced ts text)
    (hts : ∀ t ∈ ts.head?, t.isSymbol = true) : EndsWord text := by
  intro c hc
  rcases h.head_cases hc with hblank | ⟨t, piece, ht, hpiece, hc⟩
  · exact continuesIdentifier_of_isBlank hblank
  · cases hpiece with
    | symbol s => exact s.continuesIdentifier_head hc
    | bare _ => cases hts _ ht
    | raw _ => cases hts _ ht

/-- No symbol is continued by a blank or by a word. -/
theorem Symbol.ofPair?_of_follows {c d : Char} (h : isBlank d = true ∨ startsIdentifier d = true) :
    ofPair? c d = none := by
  unfold ofPair?
  split
  case h_9 => rfl
  all_goals revert h; decide

/-- A symbol before a text that begins with a blank or a word. -/
theorem Scans.symbol (s : Symbol) {more : List Char} {ts : List Token}
    (hmore : ∀ d, more.head? = some d → isBlank d = true ∨ startsIdentifier d = true)
    (h : Scans more ts) : Scans (s.chars ++ more) (.symbol s :: ts) := by
  have hsingle : ∀ {c : Char}, Symbol.ofChar? c = some s → Scans (c :: more) (.symbol s :: ts) :=
    fun hc => .mark hc (fun d hd => Symbol.ofPair?_of_follows (hmore d hd)) h
  cases s with
  | orOr | andAnd | arrow | equals | differs | atMost | atLeast | colons =>
      exact .pair (by decide) rfl h
  | _ => exact hsingle rfl

/-- A text without a symbol in front begins with a blank or with a word. -/
theorem Spaced.follows {ts : List Token} {text : List Char} (h : Spaced ts text)
    (hts : ∀ t ∈ ts.head?, t.isSymbol = false) {c : Char} (hc : text.head? = some c) :
    isBlank c = true ∨ startsIdentifier c = true := by
  rcases h.head_cases hc with hblank | ⟨t, piece, ht, hpiece, hc⟩
  · exact .inl hblank
  · refine .inr ?_
    cases hpiece with
    | symbol s => cases hts _ ht
    | bare hname =>
        obtain ⟨d, more, hchars, hd, -⟩ := hname.exists_cons
        rw [hchars] at hc
        exact Option.some.inj hc ▸ hd
    | raw _ =>
        obtain rfl := Option.some.inj hc
        decide

/-! ### Splitting -/

/-- Blanks in front of a text. -/
theorem Scans.gap {gap cs : List Char} {ts : List Token} (hgap : ∀ c ∈ gap, isBlank c = true)
    (h : Scans cs ts) : Scans (gap ++ cs) ts := by
  induction gap with
  | nil => exact h
  | cons c gap ih =>
      obtain ⟨hc, hgap⟩ := List.forall_mem_cons.1 hgap
      exact .blank hc (ih hgap)

/-- **A text of symbols and names in turn is split into them.** -/
theorem Spaced.scans {ts : List Token} {text : List Char} (h : Spaced ts text)
    (hturns : ts.IsChain fun s t => t.isSymbol = !s.isSymbol) : Scans text ts := by
  induction h with
  | done hgap =>
      have hscans := Scans.gap hgap .nil
      rwa [List.append_nil] at hscans
  | @next gap piece text t ts hgap ht hts ih =>
      obtain ⟨hhead, hturns⟩ := List.isChain_cons.1 hturns
      have hrest := ih hturns
      rw [List.append_assoc]
      refine .gap hgap ?_
      cases ht with
      | symbol s => exact .symbol s (fun d => hts.follows hhead) hrest
      | bare hname => exact .name hname (hts.endsWord hhead) hrest
      | raw hname => exact .raw hname (hts.endsWord hhead) hrest

/-! ### Chains -/

/-- The heads of a lambda, `|param|` and `param =>`. -/
def Lambda.heads (param : String) : List (List Token) :=
  [[.symbol .pipe, .ident param, .symbol .pipe], [.ident param, .symbol .arrow]]

/-- The member accesses of a chain. -/
def accessTokens (names : List String) : List Token :=
  names.flatMap fun name => [.symbol .dot, .ident name]

/-- Symbols and names come in turn in a chain. -/
theorem isChain_accessTokens (names : List String) :
    (accessTokens names).IsChain fun s t => t.isSymbol = !s.isSymbol := by
  induction names with
  | nil => exact .nil
  | cons name names ih =>
      rw [accessTokens, List.flatMap_cons]
      refine .cons_cons rfl (List.isChain_cons.2 ⟨fun t ht => ?_, ih⟩)
      cases names with
      | nil => cases ht
      | cons _ _ =>
          obtain rfl := Option.some.inj ht
          rfl

/-- Member accesses behind an operand, which go on with its chain. -/
theorem Derives.exists_accesses {param : String} {ts rest : List Token} {target : Expr}
    {names : List String}
    (h : Derives param .applied 0 ts target (accessTokens names ++ rest)) :
    ∃ e : Expr, Derives param .applied 0 ts e rest ∧
      e.chain = (target.chain.1 ++ names, target.chain.2) := by
  induction names generalizing target with
  | nil => exact ⟨target, h, by rw [List.append_nil]⟩
  | cons name names ih =>
      have hmember : Derives param .applied 0 ts (.member target name)
          (accessTokens names ++ rest) := .member h
      obtain ⟨e, he, hchain⟩ := ih hmember
      refine ⟨e, he, ?_⟩
      rw [hchain, Expr.chain, List.append_assoc, List.singleton_append]

/-- **A chain is read** behind either head. -/
theorem Lambda.exists_chain {param : String} (hbinds : param ≠ "_") (names : List String)
    {head : List Token} (hhead : head ∈ heads param) :
    ∃ body : Expr, ofTokens (head ++ .ident param :: accessTokens names) = .ok ⟨param, body⟩ ∧
      body.chain = (names, .parameter param) := by
  have hparam : Derives param .applied 0 (.ident param :: (accessTokens names ++ []))
      (.parameter param) (accessTokens names ++ []) := .ofAtom (.parameter .name hbinds)
  obtain ⟨body, hbody, hchain⟩ := hparam.exists_accesses
  rw [List.append_nil] at hbody
  have hlevel := Derives.loosen (j := 1) (.ofPrefixed (.ofApplied hbody)) (by decide)
  refine ⟨body, ?_, hchain⟩
  simp only [heads, List.mem_cons, List.not_mem_nil, or_false] at hhead
  rcases hhead with rfl | rfl
  · exact (Spells.bars hlevel).reads.fits (by decide)
  · exact (Spells.arrow hlevel).reads.fits (by decide)

/-- The tokens of a chain: a head, the parameter and the member accesses. -/
def chainTokens (head : List Token) (param : String) (names : List String) : List Token :=
  head ++ .ident param :: accessTokens names

/-- Names and symbols take turns in a chain of members. -/
theorem isChain_chainTokens {head : List Token} {param : String} (names : List String)
    (hhead : head ∈ Lambda.heads param) :
    (chainTokens head param names).IsChain fun s t => t.isSymbol = !s.isSymbol := by
  have hbody : (.ident param :: accessTokens names : List Token).IsChain
      fun s t => t.isSymbol = !s.isSymbol := by
    refine List.isChain_cons.2 ⟨fun t ht => ?_, isChain_accessTokens names⟩
    cases names with
    | nil => cases ht
    | cons _ _ =>
        obtain rfl := Option.some.inj ht
        rfl
  simp only [Lambda.heads, List.mem_cons, List.not_mem_nil, or_false] at hhead
  rcases hhead with rfl | rfl
  · exact .cons_cons rfl (.cons_cons rfl (.cons_cons rfl hbody))
  · exact .cons_cons rfl (.cons_cons rfl hbody)

/-- A chain of identifiers can be written. -/
theorem exists_writtenAs_of_mem_chainTokens {head : List Token} {param : String}
    {names : List String} (hhead : head ∈ Lambda.heads param) (hparam : IsIdentifier param.toList)
    (hnames : ∀ name ∈ names, IsIdentifier name.toList) :
    ∀ t ∈ chainTokens head param names, ∃ piece, t.WrittenAs piece := by
  have hsymbol : ∀ s : Symbol, ∃ piece, (Token.symbol s).WrittenAs piece := fun s => ⟨_, .symbol s⟩
  have hident : ∃ piece, (Token.ident param).WrittenAs piece := ⟨_, .raw hparam⟩
  have haccesses : ∀ t ∈ accessTokens names, ∃ piece, t.WrittenAs piece := by
    intro t ht
    obtain ⟨name, hname, ht⟩ := List.mem_flatMap.1 ht
    simp only [List.mem_cons, List.not_mem_nil, or_false] at ht
    rcases ht with rfl | rfl
    · exact hsymbol .dot
    · exact ⟨_, .raw (hnames name hname)⟩
  simp only [Lambda.heads, List.mem_cons, List.not_mem_nil, or_false] at hhead
  rcases hhead with rfl | rfl
  all_goals
    simp only [chainTokens, List.cons_append, List.nil_append, List.forall_mem_cons]
    simp only [hsymbol, hident, true_and]
    exact haccesses

/-- The names of a chain are read from each of its texts. -/
theorem PathSpec.memberNames_of_chain {head : List Token} {param : String} {names : List String}
    (hhead : head ∈ Lambda.heads param) (hbinds : param ≠ "_") (hne : names ≠ []) {source : String}
    (htext : Spaced (chainTokens head param names) source.toList) :
    (PathSpec.text source).memberNames = .ok names := by
  obtain ⟨body, hbody, hchain⟩ := Lambda.exists_chain hbinds names hhead
  have hscans := htext.scans (isChain_chainTokens names hhead)
  have hread : Lambda.ofText source = .ok ⟨param, body⟩ :=
    (Lambda.ofChars_of_scans hscans).1 _ hbody
  simp [memberNames, lambda, hread, Lambda.memberNames, hchain, hne, bind, Except.bind]

/-- **Every chain of member accesses can be written,** and its names are read from all its texts:
the names may be any identifiers, each bare or raw, with blanks between all tokens. -/
theorem PathSpec.memberNames_of_spaced {head : List Token} {param : String} {names : List String}
    (hhead : head ∈ Lambda.heads param) (hparam : IsIdentifier param.toList) (hbinds : param ≠ "_")
    (hnames : ∀ name ∈ names, IsIdentifier name.toList) (hne : names ≠ []) :
    (∃ text, Spaced (chainTokens head param names) text) ∧
      ∀ source : String, Spaced (chainTokens head param names) source.toList →
        (PathSpec.text source).memberNames = .ok names ∧
          (PathSpec.text source).fullName = .ok (".".intercalate names) := by
  refine ⟨Spaced.exists_text (exists_writtenAs_of_mem_chainTokens hhead hparam hnames),
    fun source htext => ?_⟩
  have hmembers := memberNames_of_chain hhead hbinds hne htext
  refine ⟨hmembers, ?_⟩
  rw [fullName, hmembers]
  rfl

/-- The chain `a.as.b` over the parameter `p`, written with blanks and with raw names. -/
theorem PathSpec.memberNames_raw_keyword :
    Spaced (chainTokens [.ident "p", .symbol .arrow] "p" ["a", "as", "b"])
        "r#p=>p .\n a.r#as\t. b ".toList ∧
      (PathSpec.text "r#p=>p .\n a.r#as\t. b ").memberNames = .ok ["a", "as", "b"] ∧
      (PathSpec.text "r#p=>p .\n a.r#as\t. b ").fullName = .ok "a.as.b" := by
  have hgap : ∀ {gap : List Char}, gap.all isBlank = true → ∀ c ∈ gap, isBlank c = true :=
    List.all_eq_true.1
  have haccesses : Spaced (accessTokens ["a", "as", "b"])
      ([' '] ++ ['.'] ++ (['\n', ' '] ++ ['a'] ++ ([] ++ ['.'] ++ ([] ++ ['r', '#', 'a', 's'] ++
        (['\t'] ++ ['.'] ++ ([' '] ++ ['b'] ++ [' '])))))) :=
    .next (hgap rfl) (.symbol .dot) <| .next (hgap rfl) (.bare (by decide)) <|
    .next (hgap rfl) (.symbol .dot) <| .next (hgap rfl) (.raw (by decide)) <|
    .next (hgap rfl) (.symbol .dot) <| .next (hgap rfl) (.bare (by decide)) <|
    .done (hgap rfl)
  have hspaced : Spaced (chainTokens [.ident "p", .symbol .arrow] "p" ["a", "as", "b"])
      ([] ++ ['r', '#', 'p'] ++ ([] ++ ['=', '>'] ++ ([] ++ ['p'] ++ _))) :=
    .next (hgap rfl) (.raw (by decide)) <| .next (hgap rfl) (.symbol .arrow) <|
    .next (hgap rfl) (.bare (by decide)) haccesses
  have htext : Spaced (chainTokens [.ident "p", .symbol .arrow] "p" ["a", "as", "b"])
      "r#p=>p .\n a.r#as\t. b ".toList := hspaced
  have hhead : [.ident "p", .symbol .arrow] ∈ Lambda.heads "p" := by decide
  have hnames : ∀ name ∈ ["a", "as", "b"], IsIdentifier name.toList := by decide
  exact ⟨htext, (memberNames_of_spaced hhead (by decide) (by decide) hnames (by decide)).2 _ htext⟩

/-! ### Names that are read -/

/-- The names on the outside of what a phrase stands for. There are none outside of arguments. -/
def Nonterminal.chainNames : (n : Nonterminal) → n.Tree → List String
  | arguments, _ => []
  | atom, e | applied, e | prefixed, e | level _, e => e.chain.1

/-- **The names on the outside of a phrase are tokens of it.** -/
theorem Derives.ident_mem {param name : String} {n : Nonterminal} {m : Nat}
    {ts rest : List Token} {tree : n.Tree} (h : Derives param n m ts tree rest)
    (hname : name ∈ n.chainNames tree) : .ident name ∈ ts := by
  -- Only a member access adds a name, and it stands behind its target, at the end of the phrase.
  induction h with
  | member htarget ih =>
      rcases List.mem_append.1 hname with hbefore | hlast
      · exact ih hbefore
      · obtain rfl := List.mem_singleton.1 hlast
        exact htarget.isSuffix.mem (List.mem_cons_of_mem _ List.mem_cons_self)
  | parens _ ih => exact List.mem_cons_of_mem _ (ih hname)
  | cast _ _ ih | ofAtom _ ih | ofApplied _ ih | ofPrefixed _ ih | ofTighter _ ih => exact ih hname
  | noArgument | lastArgument | argument | constant | parameter | free | call | method | index
  | unary | binary => cases hname

/-- The names of a lambda are on the outside of its body. -/
theorem Lambda.chain_of_memberNames {l : Lambda} {names : List String}
    (h : l.memberNames = .ok names) : l.body.chain.1 = names := by
  rw [memberNames] at h
  split at h
  next hchain =>
    rw [hchain]
    split at h
    · cases h
    split at h
    · cases h
    · exact Except.ok.inj h
  · cases h

/-- **The names that are read from a text are identifiers.** -/
theorem PathSpec.isIdentifier_of_memberNames {source : String} {names : List String}
    (h : (PathSpec.text source).memberNames = .ok names) :
    ∀ name ∈ names, IsIdentifier name.toList := by
  intro name hname
  cases hread : Lambda.ofText source with
  | error e =>
      rw [memberNames, lambda, hread] at h
      cases h
  | ok l =>
      rw [memberNames, lambda, hread] at h
      obtain ⟨ts, hscan, htokens⟩ := Lambda.ofText_eq_ok_iff.1 hread
      obtain ⟨m, -, hspells⟩ := Lambda.spells_of_ofTokens htokens
      have hchain : name ∈ l.body.chain.1 := Lambda.chain_of_memberNames h ▸ hname
      refine isScanned_of_tokens hscan (.ident name) ?_
      cases hspells with
      | bars hbody => exact (List.suffix_append [_, _, _] _).mem (hbody.ident_mem hchain)
      | arrow hbody => exact (List.suffix_append [_, _] _).mem (hbody.ident_mem hchain)

end MemberAccess
