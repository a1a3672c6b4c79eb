import MemberAccess.Proofs.Lambda.Completeness
import MemberAccess.Proofs.Lambda.Prompt

/-!
# Readers of expressions decide promptly

Each reader decides promptly, from single tokens up to the expressions of all layers. A path stops
where no `::` goes on, a type also before a `<`, an operand at what is not applied to it, and an
expression at a token that binds to nothing before it. What ends with a closing symbol stops
everywhere.

## Main definitions

* `Layer.IsPrompt`: the readers of a layer decide promptly.

## Main results

* `Reader.prompt_operators`, `Reader.prompt_postfixes`, `Reader.prompt_arguments`: the loops.
* `Layer.isPrompt_ofRoom`: the readers of all layers.
-/

namespace MemberAccess

open Reading (plain)

/-! ### Paths -/

namespace Reader

/-- A reader consumes a token. -/
theorem plain_ne_self {α : Type} (r : Reader α) (ts : List Token) (a : α) :
    plain (r ts) ≠ .ok (a, ts) := fun h => absurd (Reading.length_lt_of_plain h) (Nat.lt_irrefl _)

/-- A name is read whatever follows it. -/
theorem prompt_ident (stops : List Token → Prop) (what : Expectation) (ts : List Token) :
    Prompt stops (fun ts => plain (ident what ts)) ts := by
  have hmend : ∃ patch a, patch.all Token.isFiller = true ∧ ∀ more, stops more →
      plain (ident what (patch ++ more)) = .ok (a, more) :=
    ⟨[.ident "x"], "x", rfl, fun more _ => plain_ident what "x" more⟩
  have hreject : (∀ name, ts.head? ≠ some (.ident name)) →
      Prompt stops (fun ts => plain (ident what ts)) ts := by
    intro hno
    refine .reject (.expected what ts.head?) (fun more hmore => ?_) fun _ => hmend
    rw [← hmore] at hno ⊢
    rw [ident.eq_def]
    split
    · exact absurd rfl (hno _)
    · rfl
  cases ts with
  | nil => exact hreject fun _ h => (nomatch h)
  | cons t rest =>
      cases t with
      | ident name => exact .done [.ident name] name fun more => plain_ident what name more
      | symbol s => exact hreject fun _ h => (nomatch h)
      | keywordAs => exact hreject fun _ h => (nomatch h)
      | literal l => exact hreject fun _ h => (nomatch h)

/-- A segment of a path is a name. -/
theorem plain_segments_colons (path : String) (rest : List Token) :
    plain (segments path (.symbol .colons :: rest)) =
      (plain (ident .segment rest)).bind fun r =>
        plain (segments (path ++ "::" ++ r.1) r.2) := by
  rw [plain_segments, ident.eq_def]
  cases rest with
  | nil => rfl
  | cons t rest => cases t <;> rfl

/-- A path goes on with a segment only. -/
theorem plain_segments_of_head {path : String} {ts : List Token}
    (h : ts.head? ≠ some (.symbol .colons)) : plain (segments path ts) = .ok (path, ts) := by
  rw [plain_segments]
  split
  · exact absurd rfl h
  · exact absurd rfl h
  · rfl

/-- The segments of a path are read promptly, and stop at anything but `::`. -/
theorem prompt_segments (path : String) (ts : List Token) :
    Prompt (tightness · ≤ 9) (fun ts => plain (segments path ts)) ts := by
  induction hn : ts.length using Nat.strongRecOn generalizing path ts with
  | ind n ih =>
      by_cases hcolons : ts.head? = some (.symbol .colons)
      · obtain ⟨rest, rfl⟩ := List.head?_eq_some_iff.1 hcolons
        refine .behind [.symbol .colons] (fun more => plain_segments_colons path more) ?_
        refine (prompt_ident (fun _ => True) .segment rest).bind_loop
          (fun name after => plain (segments (path ++ "::" ++ name) after))
          (fun name after hname => ?_) (fun _ _ => trivial)
          fun name => ⟨_, fun more hmore => plain_segments_stop hmore⟩
        have hshort := Reading.length_lt_of_plain hname
        rw [List.length_cons] at hn
        exact ih after.length (by omega) _ _ rfl
      · refine .stop path fun more hmore => ?_
        rcases hmore with hsame | hstop
        · exact plain_segments_of_head (hsame ▸ hcolons)
        · exact plain_segments_stop hstop

/-- So are paths. -/
theorem prompt_path (ts : List Token) :
    Prompt (tightness · ≤ 9) (fun ts => plain (path ts)) ts := by
  simp only [path, plain_andThen]
  exact (prompt_ident (fun _ => True) .name ts).bind_loop
    (fun name rest => plain (segments name rest)) (fun name rest _ => prompt_segments name rest)
    (fun _ _ => trivial)
    fun name => ⟨name, fun more hmore => plain_segments_stop hmore⟩

/-! ### Types -/

/-- Tokens at which a type ends: its path does not go on, and no arguments follow. -/
def EndsType (ts : List Token) : Prop :=
  tightness ts ≤ 9 ∧ ts.head? ≠ some (.symbol .less)

/-- What follows a type argument: further ones, or the end of the arguments. -/
def afterTypeArgument (inner : Reader String) (text value : String) :
    List Token → Except Rejection (String × List Token)
  | .symbol .comma :: rest => plain (typeArguments inner (text ++ value ++ ", ") rest)
  | .symbol .greater :: rest => .ok (text ++ value ++ ">", rest)
  | rest => .error (.expected .typeArgumentEnd rest)

section

variable {inner : Reader String}
  (hinner : ∀ ts, Prompt EndsType (fun ts => plain (inner ts)) ts)

include hinner

/-- Type arguments end with the `>` that closes them, whatever follows it. -/
theorem prompt_typeArguments (text : String) (ts : List Token) :
    Prompt (fun _ => True) (fun ts => plain (typeArguments inner text ts)) ts := by
  induction hn : ts.length using Nat.strongRecOn generalizing text ts with
  | ind n ih =>
      refine .behind [] (plain_typeArguments inner text) ?_
      refine (hinner ts).bind_entry .comma .greater .typeArgumentEnd
        (fun value => text ++ value ++ ">") (afterTypeArgument inner text)
        (fun value rest => plain (typeArguments inner (text ++ value ++ ", ") rest))
        (fun _ _ => rfl) (fun _ _ => rfl) (fun value rest hcomma hgreater => ?_)
        (fun value rest hread => ?_) (fun _ _ _ _ h => Reading.length_lt_of_plain h)
        fun rest => ⟨tightness_cons_le (by decide), by simp⟩
      · rw [afterTypeArgument.eq_def]
        split
        · exact absurd rfl hcomma
        · exact absurd rfl hgreater
        · rfl
      · have hshort := Reading.length_lt_of_plain hread
        rw [List.length_cons] at hshort
        exact ih rest.length (by omega) _ _ rfl

omit hinner in
/-- Type arguments may follow a path. -/
theorem plain_type_onToken (ts : List Token) :
    plain (type inner ts) = (plain (path ts)).bind fun name =>
      onToken (.symbol .less) (fun rest => plain (typeArguments inner (name.1 ++ "<") rest))
        (fun rest => .ok (name.1, rest)) name.2 := by
  rw [plain_type]
  congr
  funext name
  split
  · rename_i heq
    rw [heq, onToken_cons]
  · rename_i hless
    rw [onToken_of_ne]
    intro h
    obtain ⟨rest, heq⟩ := List.head?_eq_some_iff.1 h
    exact hless rest heq

/-- A type ends where its path does, unless a `<` opens arguments. -/
theorem prompt_type (ts : List Token) :
    Prompt EndsType (fun ts => plain (type inner ts)) ts := by
  refine .behind [] plain_type_onToken ?_
  refine (prompt_path ts).bind_loop
    (fun name => onToken (.symbol .less)
      (fun rest => plain (typeArguments inner (name ++ "<") rest)) fun rest => .ok (name, rest))
    (fun name rest _ => ?_) (fun more hmore => hmore.1)
    fun name => ⟨name, fun more hmore => onToken_of_ne hmore.2⟩
  exact .choose (fun rest _ => (prompt_typeArguments hinner _ rest).mono fun _ _ => trivial)
    (.stop name fun _ _ => rfl) (fun more hmore => hmore.2) ⟨name, fun _ _ => rfl⟩

end

/-! ### Operands -/

/-- What is closed by a symbol ends with it, whatever follows. -/
theorem prompt_closed {α : Type} {inner : Reader α} (close : Symbol)
    (hclose : Token.tightness (.symbol close) = 0) {ts : List Token}
    (hinner : Prompt (tightness · = 0) (fun ts => plain (inner ts)) ts) :
    Prompt (fun _ => True) (fun ts => plain (closed inner close ts)) ts := by
  have hother : ∀ (e : α) (rest : List Token), rest.head? ≠ some (.symbol close) →
      (plain (symbol close rest)).map (fun s => (e, s.2)) =
        .error (.expected (.symbol close) rest) := by
    intro e rest hrest
    cases rest with
    | nil => rfl
    | cons t rest =>
        have ht : t ≠ .symbol close := fun h => hrest (congrArg some h)
        rw [symbol, if_neg ht]
        rfl
  have hcloses : ∀ (e : α) (rest : List Token),
      (plain (symbol close (.symbol close :: rest))).map (fun s => (e, s.2)) = .ok (e, rest) := by
    intro e rest
    rw [plain_symbol]
    rfl
  refine .behind [] (plain_closed inner close) ?_
  refine hinner.bind (fun e rest => (plain (symbol close rest)).map fun s => (e, s.2))
    (fun e rest _ => ?_) (fun e e' rest _ hread => ?_) fun e =>
      ⟨[.symbol close], e, rfl, fun rest _ => ⟨hclose, hcloses e rest⟩⟩
  · by_cases hrest : rest.head? = some (.symbol close)
    · obtain ⟨rest, rfl⟩ := List.head?_eq_some_iff.1 hrest
      exact .done [.symbol close] e (hcloses e)
    · refine .reject (.expected (.symbol close) rest.head?) (fun us hus => ?_) fun _ =>
        ⟨[.symbol close], e, rfl, fun us _ => hcloses e us⟩
      rw [hother e us (hus ▸ hrest), Rejection.expected, hus]
  · by_cases hrest : rest.head? = some (.symbol close)
    · obtain ⟨us, rfl⟩ := List.head?_eq_some_iff.1 hrest
      rw [hcloses e us] at hread
      exact absurd (congrArg Prod.snd (Except.ok.inj hread)).symm (List.cons_ne_self _ _)
    · rw [hother e rest hrest] at hread
      cases hread

/-- What follows an argument: the end of the arguments, or further ones. -/
def afterArgument (inner : Reader Expr) (args : List Expr) (arg : Expr) :
    List Token → Except Rejection (List Expr × List Token)
  | .symbol .closeParen :: rest => .ok ((arg :: args).reverse, rest)
  | .symbol .comma :: rest => plain (arguments inner (arg :: args) rest)
  | rest => .error (.expected (.symbol .comma) rest)

section

variable {inner : Reader Expr}
  (hinner : ∀ ts, Prompt (tightness · = 0) (fun ts => plain (inner ts)) ts)

include hinner

/-- Arguments end with the parenthesis that closes them, whatever follows it. -/
theorem prompt_arguments (args : List Expr) (ts : List Token) :
    Prompt (fun _ => True) (fun ts => plain (arguments inner args ts)) ts := by
  induction hn : ts.length using Nat.strongRecOn generalizing args ts with
  | ind n ih =>
      by_cases hclose : ts.head? = some (.symbol .closeParen)
      · obtain ⟨rest, rfl⟩ := List.head?_eq_some_iff.1 hclose
        exact .done [.symbol .closeParen] args.reverse fun more => by
          rw [List.singleton_append, plain_arguments]
      refine .of_head ?_ (fun us hus => plain_arguments_open inner args (hus ▸ hclose))
        (plain_ne_self _ _)
        ⟨[.symbol .closeParen], args.reverse, rfl, fun more _ => by
          rw [List.singleton_append, plain_arguments]⟩
      refine (hinner ts).bind_entry .comma .closeParen (.symbol .comma)
        (fun arg => (arg :: args).reverse) (afterArgument inner args)
        (fun arg rest => plain (arguments inner (arg :: args) rest))
        (fun _ _ => rfl) (fun _ _ => rfl) (fun arg rest hcomma hclose => ?_)
        (fun arg rest hread => ?_) (fun _ _ _ _ h => Reading.length_lt_of_plain h) fun _ => rfl
      · rw [afterArgument.eq_def]
        split
        · exact absurd rfl hclose
        · exact absurd rfl hcomma
        · rfl
      · have hshort := Reading.length_lt_of_plain hread
        rw [List.length_cons] at hshort
        exact ih rest.length (by omega) _ _ rfl

omit hinner in
/-- Arguments may follow a path. -/
theorem plain_named_onToken (param : String) (ts : List Token) :
    plain (named param inner ts) = (plain (path ts)).bind fun name =>
      onToken (.symbol .openParen)
        (fun rest =>
          (plain (arguments inner [] rest)).map fun args => (.call name.1 args.1, args.2))
        (fun rest => .ok (.ofName param name.1, rest)) name.2 := by
  rw [plain_named]
  congr
  funext name
  split
  · rename_i heq
    rw [heq, onToken_cons]
  · rename_i hopen
    rw [onToken_of_ne]
    intro h
    obtain ⟨rest, heq⟩ := List.head?_eq_some_iff.1 h
    exact hopen rest heq

omit hinner in
/-- A token that binds less tightly than a call opens none. -/
theorem head?_ne_openParen {ts : List Token} (h : tightness ts ≤ 8) :
    ts.head? ≠ some (.symbol .openParen) := by
  intro hopen
  obtain ⟨more, rfl⟩ := List.head?_eq_some_iff.1 hopen
  exact absurd h (by simp [tightness, Token.tightness])

/-- A name ends where its path does, unless a `(` opens arguments. -/
theorem prompt_named (param : String) (ts : List Token) :
    Prompt (tightness · ≤ 8) (fun ts => plain (named param inner ts)) ts := by
  refine .behind [] (plain_named_onToken param) ?_
  refine (prompt_path ts).bind_loop
    (fun name => onToken (.symbol .openParen)
      (fun rest => (plain (arguments inner [] rest)).map fun args =>
        (Expr.call name args.1, args.2))
      fun rest => .ok (Expr.ofName param name, rest))
    (fun name rest _ => ?_) (fun more hmore => Nat.le_succ_of_le hmore)
    fun name => ⟨_, fun more hmore => onToken_of_ne (head?_ne_openParen hmore)⟩
  exact .choose
    (fun rest _ => ((prompt_arguments hinner [] rest).map (Expr.call name)).mono fun _ _ => trivial)
    (.stop (.ofName param name) fun _ _ => rfl) (fun more hmore => head?_ne_openParen hmore)
    ⟨_, fun _ _ => rfl⟩

/-- Operands without prefixes and applications are read promptly. -/
theorem prompt_atom (param : String) (ts : List Token) :
    Prompt (tightness · ≤ 8) (fun ts => plain (atom param inner ts)) ts := by
  have hmend : ∃ patch a, patch.all Token.isFiller = true ∧ ∀ more, tightness more ≤ 8 →
      plain (atom param inner (patch ++ more)) = .ok (a, more) :=
    ⟨[.literal (.bool true)], .constant (.bool true), rfl, fun more _ => rfl⟩
  have hreject : (∀ us, us.head? = ts.head? →
      plain (atom param inner us) = .error (.expected .expression us)) →
      Prompt (tightness · ≤ 8) (fun ts => plain (atom param inner ts)) ts := by
    intro h
    refine .reject (.expected .expression ts.head?) (fun us hus => ?_) fun _ => hmend
    rw [h us hus, Rejection.expected, hus]
  cases ts with
  | nil =>
      refine hreject fun us hus => ?_
      rw [List.head?_eq_none_iff.1 hus]
      rfl
  | cons t rest =>
      cases t with
      | literal l => exact .done [.literal l] (.constant l) fun _ => rfl
      | ident name =>
          refine .of_head (prompt_named hinner param _) (fun us hus => ?_) (plain_ne_self _ _) hmend
          obtain ⟨more, rfl⟩ := List.head?_eq_some_iff.1 hus
          rw [plain_atom]
      | keywordAs =>
          refine hreject fun us hus => ?_
          obtain ⟨more, rfl⟩ := List.head?_eq_some_iff.1 hus
          rfl
      | symbol s =>
          by_cases hs : s = .openParen
          · subst hs
            refine ((prompt_closed .closeParen rfl (hinner rest)).mono
              fun _ _ => trivial).behind [.symbol .openParen] fun more => ?_
            rw [List.singleton_append, plain_atom]
          · refine hreject fun us hus => ?_
            obtain ⟨more, rfl⟩ := List.head?_eq_some_iff.1 hus
            cases s <;> first | rfl | exact absurd rfl hs

omit hinner in
/-- Behind a point stands a name, and arguments may follow it. -/
theorem plain_postfixes_dot (left : Expr) (rest : List Token) :
    plain (postfixes inner left (.symbol .dot :: rest)) =
      (plain (ident .memberName rest)).bind fun name =>
        onToken (.symbol .openParen)
          (fun more => (plain (arguments inner [] more)).bind fun args =>
            plain (postfixes inner (.method left name.1 args.1) args.2))
          (fun more => plain (postfixes inner (.member left name.1) more)) name.2 := by
  rw [plain_postfixes, ident.eq_def]
  cases rest with
  | nil => rfl
  | cons t rest =>
      cases t with
      | ident name =>
          cases rest with
          | nil => rfl
          | cons s rest =>
              by_cases hs : s = .symbol .openParen
              · subst hs
                rfl
              · simp only [Reading.plain_ok, Except.bind, onToken, if_neg hs]
                split
                · rename_i heq
                  cases heq
                  exact absurd rfl hs
                · rename_i heq
                  cases heq
                  rfl
                · rename_i hno heq
                  cases heq
                  exact absurd rfl (hno name (s :: rest))
                · rename_i heq
                  cases heq
                · rename_i hno _ _
                  exact absurd rfl (hno name (s :: rest))
      | symbol s => rfl
      | keywordAs => rfl
      | literal l => rfl

omit hinner in
/-- Only a point and a bracket go on with what is applied to an operand. -/
theorem plain_postfixes_of_head {left : Expr} {ts : List Token}
    (hdot : ts.head? ≠ some (.symbol .dot)) (hopen : ts.head? ≠ some (.symbol .openBracket)) :
    plain (postfixes inner left ts) = .ok (left, ts) := by
  rw [plain_postfixes]
  split
  · exact absurd rfl hdot
  · exact absurd rfl hdot
  · exact absurd rfl hdot
  · exact absurd rfl hopen
  · rfl

/-- Applications are read promptly, and stop at what binds less tightly than they do. -/
theorem prompt_postfixes (left : Expr) (ts : List Token) :
    Prompt (tightness · ≤ 7) (fun ts => plain (postfixes inner left ts)) ts := by
  induction hn : ts.length using Nat.strongRecOn generalizing left ts with
  | ind n ih =>
      have hloop : ∀ left, ∃ e, ∀ more, tightness more ≤ 7 →
          plain (postfixes inner left more) = .ok (e, more) :=
        fun left => ⟨left, fun more hmore => plain_postfixes_stop hmore⟩
      by_cases hdot : ts.head? = some (.symbol .dot)
      · obtain ⟨rest, rfl⟩ := List.head?_eq_some_iff.1 hdot
        refine .behind [.symbol .dot] (plain_postfixes_dot left) ?_
        refine (prompt_ident (fun _ => True) .memberName rest).bind_loop
          (fun name => onToken (.symbol .openParen)
            (fun more => (plain (arguments inner [] more)).bind fun args =>
              plain (postfixes inner (.method left name args.1) args.2))
            fun more => plain (postfixes inner (.member left name) more))
          (fun name after hname => ?_) (fun _ _ => trivial)
          fun name => ⟨.member left name, fun more hmore => ?_⟩
        · have hshort := Reading.length_lt_of_plain hname
          rw [List.length_cons] at hn
          refine .choose (fun more hafter => ?_) (ih after.length (by omega) _ _ rfl)
            (fun more hmore => head?_ne_openParen (Nat.le_succ_of_le hmore)) (hloop _)
          refine (prompt_arguments hinner [] more).bind_loop
            (fun args rest => plain (postfixes inner (.method left name args) rest))
            (fun args rest hargs => ?_) (fun _ _ => trivial) fun args => hloop _
          have hclosed := Reading.length_lt_of_plain hargs
          rw [hafter, List.length_cons] at hshort
          exact ih rest.length (by omega) _ _ rfl
        · rw [onToken_of_ne (head?_ne_openParen (Nat.le_succ_of_le hmore)),
            plain_postfixes_stop hmore]
      by_cases hopen : ts.head? = some (.symbol .openBracket)
      · obtain ⟨rest, rfl⟩ := List.head?_eq_some_iff.1 hopen
        refine .behind [.symbol .openBracket] (fun more => plain_postfixes inner left _) ?_
        refine (prompt_closed .closeBracket rfl (hinner rest)).bind_loop
          (fun position rest => plain (postfixes inner (.index left position) rest))
          (fun position after hposition => ?_) (fun _ _ => trivial) fun position => hloop _
        have hshort := Reading.length_lt_of_plain hposition
        rw [List.length_cons] at hn
        exact ih after.length (by omega) _ _ rfl
      · refine .stop left fun more hmore => ?_
        rcases hmore with hsame | hmore
        · exact plain_postfixes_of_head (hsame ▸ hdot) (hsame ▸ hopen)
        · exact plain_postfixes_stop hmore

/-- So are operands with their applications. -/
theorem prompt_applied (param : String) (ts : List Token) :
    Prompt (tightness · ≤ 7) (fun ts => plain (applied param inner ts)) ts := by
  refine .behind [] (plain_applied param inner) ?_
  exact (prompt_atom hinner param ts).bind_loop (fun e rest => plain (postfixes inner e rest))
    (fun e rest _ => prompt_postfixes hinner e rest) (fun _ hmore => Nat.le_succ_of_le hmore)
    fun e => ⟨e, fun more hmore => plain_postfixes_stop hmore⟩

/-- An operand is read as far as what is applied to its atom. -/
theorem prompt_operand (param : String) {below : Reader Expr}
    (hbelow : ∀ ts, Prompt (tightness · ≤ 7) (fun ts => plain (below ts)) ts) (ts : List Token) :
    Prompt (tightness · ≤ 7) (fun ts => plain (operand param below inner ts)) ts := by
  have happlied : (∀ us, us.head? = ts.head? →
      plain (operand param below inner us) = plain (applied param inner us)) →
      Prompt (tightness · ≤ 7) (fun ts => plain (operand param below inner ts)) ts := by
    intro h
    refine .of_head (prompt_applied hinner param ts) h (plain_ne_self _ _)
      ⟨[.literal (.bool true)], .constant (.bool true), rfl, fun more hmore => ?_⟩
    have hop : (Token.literal (.bool true)).unaryOp? = none := rfl
    rw [List.singleton_append, plain_operand, hop, plain_applied]
    exact plain_postfixes_stop hmore
  cases ts with
  | nil =>
      refine happlied fun us hus => ?_
      rw [List.head?_eq_none_iff.1 hus]
      rfl
  | cons t rest =>
      cases hop : t.unaryOp? with
      | none =>
          refine happlied fun us hus => ?_
          obtain ⟨more, rfl⟩ := List.head?_eq_some_iff.1 hus
          rw [plain_operand, hop]
      | some op =>
          refine ((hbelow rest).map (.unary op)).behind [t] fun more => ?_
          rw [List.singleton_append, plain_operand, hop]

end

/-! ### Operators between operands -/

/-- Only a cast and an operator go on with an expression. -/
theorem plain_operators_of_head {right : Nat → Reader Expr} {castType : Reader String} {p : Nat}
    {left : Expr} {ts : List Token} (hcast : ts.head? ≠ some .keywordAs)
    (hop : ∀ t op, ts.head? = some t → t.binaryOp? = some op → op.level < p) :
    plain (operators right castType p left ts) = .ok (left, ts) := by
  rw [plain_operators]
  split
  · exact absurd rfl hcast
  · rename_i t rest _
    cases ht : t.binaryOp? with
    | none => rfl
    | some op => exact if_pos (hop t op rfl ht)
  · rfl

/-- The loop over operators ends where nothing binds to the expression. -/
theorem prompt_operators {right : Nat → Reader Expr} {castType : Reader String}
    (hright : ∀ p ts, p ≤ castLevel →
      Prompt (tightness · = 0) (fun ts => plain (right p ts)) ts)
    (hcast : ∀ ts, Prompt EndsType (fun ts => plain (castType ts)) ts)
    {p : Nat} (hp : p ≤ castLevel) (left : Expr) (ts : List Token) :
    Prompt (tightness · = 0) (fun ts => plain (operators right castType p left ts)) ts := by
  induction hn : ts.length using Nat.strongRecOn generalizing left ts with
  | ind n ih =>
      have hloop : ∀ left, ∃ e, ∀ more, tightness more = 0 →
          plain (operators right castType p left more) = .ok (e, more) :=
        fun left => ⟨left, fun more hmore => plain_operators_stop hp (.inr hmore)⟩
      by_cases has : ts.head? = some .keywordAs
      · obtain ⟨rest, rfl⟩ := List.head?_eq_some_iff.1 has
        refine .behind [.keywordAs] (fun more => plain_operators right castType p left _) ?_
        refine (hcast rest).bind_loop
          (fun type rest => plain (operators right castType p (.cast left type) rest))
          (fun type after htype => ?_) (fun more hmore => ⟨by omega, fun hless => ?_⟩)
          fun type => hloop _
        · have hshort := Reading.length_lt_of_plain htype
          rw [List.length_cons] at hn
          exact ih after.length (by omega) _ _ rfl
        · obtain ⟨more, rfl⟩ := List.head?_eq_some_iff.1 hless
          exact absurd hmore (by simp [tightness, Token.tightness, Token.level, Token.binaryOp?,
            Symbol.binaryOp?, BinaryOp.level])
      by_cases hop : ∃ t op, ts.head? = some t ∧ t.binaryOp? = some op ∧ p ≤ op.level
      · obtain ⟨t, op, ht, hop, hlevel⟩ := hop
        obtain ⟨rest, rfl⟩ := List.head?_eq_some_iff.1 ht
        refine .behind [t] (plain_operators_binary right castType left hop hlevel) ?_
        refine (hright (op.level + 1) rest op.level_lt).bind_loop
          (fun e rest => plain (operators right castType p (.binary op left e) rest))
          (fun e after he => ?_) (fun _ hmore => hmore) fun e => hloop _
        have hshort := Reading.length_lt_of_plain he
        rw [List.length_cons] at hn
        exact ih after.length (by omega) _ _ rfl
      · refine .stop left fun more hmore => ?_
        rcases hmore with hsame | hmore
        · refine plain_operators_of_head (hsame ▸ has) fun t op ht hbinary => ?_
          exact Nat.lt_of_not_le fun hlevel => hop ⟨t, op, hsame ▸ ht, hbinary, hlevel⟩
        · exact plain_operators_stop hp (.inr hmore)

end Reader

/-! ### Layers -/

/-- **The readers of a layer decide promptly.** -/
structure Layer.IsPrompt (layer : Layer) : Prop where
  expr (p : Nat) (ts : List Token) (hp : p ≤ castLevel) :
    Prompt (tightness · = 0) (fun ts => plain (layer.expr p ts)) ts
  operand (ts : List Token) : Prompt (tightness · ≤ 7) (fun ts => plain (layer.operand ts)) ts
  type (ts : List Token) : Prompt Reader.EndsType (fun ts => plain (layer.type ts)) ts

/-- Where no level may be opened everything is rejected at once. -/
theorem Layer.isPrompt_bottom : bottom.IsPrompt := by
  have hdeep : ∀ {α : Type} (stops : List Token → Prop) (ts : List Token),
      Prompt stops (fun ts => plain (Reader.tooDeep (α := α) ts)) ts :=
    fun stops ts => .reject .tooDeep (fun _ _ => rfl) fun h => absurd rfl h
  exact ⟨fun _ ts _ => hdeep _ ts, hdeep _, hdeep _⟩

/-- A layer over one that decides promptly does so, too. -/
theorem Layer.IsPrompt.next {below : Layer} (h : below.IsPrompt) (param : String) :
    (below.next param).IsPrompt := by
  have hexpr : ∀ (p : Nat) (ts : List Token), p ≤ castLevel →
      Prompt (tightness · = 0) (fun ts => plain ((below.next param).expr p ts)) ts := by
    intro p ts hp
    refine .behind [] (plain_expr param below p) ?_
    refine (h.operand ts).bind_loop
      (fun e rest => plain (Reader.operators below.expr below.type p e rest))
      (fun e rest _ => Reader.prompt_operators h.expr h.type hp e rest)
      (fun more hmore => by omega)
      fun e => ⟨e, fun more hmore => Reader.plain_operators_stop hp (.inr hmore)⟩
  exact ⟨hexpr, Reader.prompt_operand (fun ts => hexpr 0 ts (Nat.zero_le _)) param h.operand,
    Reader.prompt_type h.type⟩

/-- **The readers of all layers decide promptly.** -/
theorem Layer.isPrompt_ofRoom (param : String) (room : Nat) : (ofRoom param room).IsPrompt := by
  induction room with
  | zero => exact isPrompt_bottom.next param
  | succ room ih => exact ih.next param

end MemberAccess
