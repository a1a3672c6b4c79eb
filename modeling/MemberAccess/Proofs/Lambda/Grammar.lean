import MemberAccess.Lambda.OfText

/-!
# The grammar of lambdas

The grammar is stratified by how tightly an operator binds. There is a level for each kind of
binary operator, left recursive, so that operators associate to the left, and above them one for
casts; then come prefix operators, what is applied to an atom, and atoms. It is stated on tokens and
knows nothing of readers: `Derives param n levels ts tree rest` says that the tokens before `rest`
in `ts` are a phrase of the nonterminal `n` with the given tree.

With a phrase its `levels` are counted: the number of levels of nesting that are open at a time at
most. An expression opens one where it is an operand to the right of an operator, an argument, an
index or stands between parentheses, and so do a prefix operator and a list of type arguments.

## Main definitions

* `SpellsPath`, `SpellsType`: paths and types, with their texts.
* `Derives`: the phrases of expressions, with their trees.
* `Lambda.Spells`: the tokens of a lambda.

## Main results

* `Derives.starts`: the tokens with which an expression begins.
* `Derives.isSuffix`: the tokens behind an expression are the last ones.
-/

namespace MemberAccess

/-! ### Paths and types -/

/-- **Names separated by `::`.** -/
inductive SpellsPath : List Token → String → List Token → Prop
  | name {name : String} {rest : List Token} : SpellsPath (.ident name :: rest) name rest
  | segment {ts rest : List Token} {path name : String}
      (h : SpellsPath ts path (.symbol .colons :: .ident name :: rest)) :
      SpellsPath ts (path ++ "::" ++ name) rest

/-- What stands in a type: one type, or the arguments of one up to the closing `>`. -/
inductive TypePart where
  | single | arguments

/-- **Types.** A path that a `<` follows is not a type without arguments. The text of a type is
written with a blank after each comma. -/
inductive SpellsType : TypePart → (levels : Nat) → List Token → String → List Token → Prop
  | bare {ts rest : List Token} {path : String} (hpath : SpellsPath ts path rest)
      (hrest : rest.head? ≠ some (.symbol .less)) : SpellsType .single 0 ts path rest
  | applied {m : Nat} {ts more rest : List Token} {path args : String}
      (hpath : SpellsPath ts path (.symbol .less :: more))
      (hargs : SpellsType .arguments m more args rest) :
      SpellsType .single (m + 1) ts (path ++ "<" ++ args) rest
  | last {m : Nat} {ts rest : List Token} {type : String}
      (htype : SpellsType .single m ts type (.symbol .greater :: rest)) :
      SpellsType .arguments m ts (type ++ ">") rest
  | more {m k : Nat} {ts more rest : List Token} {type args : String}
      (htype : SpellsType .single m ts type (.symbol .comma :: more))
      (hargs : SpellsType .arguments k more args rest) :
      SpellsType .arguments (max m k) ts (type ++ ", " ++ args) rest

/-! ### Expressions -/

/-- **The nonterminals.** Arguments reach up to the closing parenthesis. -/
inductive Nonterminal where
  | arguments
  | atom
  | applied
  | prefixed
  | level (k : Nat)

/-- What a phrase stands for: a list of expressions, or one. -/
abbrev Nonterminal.Tree : Nonterminal → Type
  | arguments => List Expr
  | _ => Expr

/-- **The phrases of expressions** over a parameter, with the number of levels that are open in them
at a time at most. -/
inductive Derives (param : String) :
    (n : Nonterminal) → (levels : Nat) → List Token → n.Tree → List Token → Prop
  | noArgument {rest : List Token} :
      Derives param .arguments 0 (.symbol .closeParen :: rest) [] rest
  | lastArgument {m : Nat} {ts rest : List Token} {arg : Expr}
      (harg : Derives param (.level 1) m ts arg (.symbol .closeParen :: rest)) :
      Derives param .arguments (m + 1) ts [arg] rest
  | argument {m k : Nat} {ts more rest : List Token} {arg : Expr} {args : List Expr}
      (harg : Derives param (.level 1) m ts arg (.symbol .comma :: more))
      (hargs : Derives param .arguments k more args rest) :
      Derives param .arguments (max (m + 1) k) ts (arg :: args) rest
  | constant {value : Literal} {rest : List Token} :
      Derives param .atom 0 (.literal value :: rest) (.constant value) rest
  | parameter {ts rest : List Token} (hpath : SpellsPath ts param rest) (hbinds : param ≠ "_") :
      Derives param .atom 0 ts (.parameter param) rest
  | free {ts rest : List Token} {path : String} (hpath : SpellsPath ts path rest)
      (hfree : param = "_" ∨ path ≠ param) : Derives param .atom 0 ts (.free path) rest
  | call {m : Nat} {ts more rest : List Token} {path : String} {args : List Expr}
      (hpath : SpellsPath ts path (.symbol .openParen :: more))
      (hargs : Derives param .arguments m more args rest) :
      Derives param .atom m ts (.call path args) rest
  | parens {m : Nat} {ts rest : List Token} {inner : Expr}
      (hinner : Derives param (.level 1) m ts inner (.symbol .closeParen :: rest)) :
      Derives param .atom (m + 1) (.symbol .openParen :: ts) inner rest
  | ofAtom {m : Nat} {ts rest : List Token} {e : Expr} (h : Derives param .atom m ts e rest) :
      Derives param .applied m ts e rest
  | member {m : Nat} {ts rest : List Token} {target : Expr} {name : String}
      (htarget : Derives param .applied m ts target (.symbol .dot :: .ident name :: rest)) :
      Derives param .applied m ts (.member target name) rest
  | method {m k : Nat} {ts more rest : List Token} {receiver : Expr} {name : String}
      {args : List Expr}
      (hreceiver : Derives param .applied m ts receiver
        (.symbol .dot :: .ident name :: .symbol .openParen :: more))
      (hargs : Derives param .arguments k more args rest) :
      Derives param .applied (max m k) ts (.method receiver name args) rest
  | index {m k : Nat} {ts more rest : List Token} {target position : Expr}
      (htarget : Derives param .applied m ts target (.symbol .openBracket :: more))
      (hposition : Derives param (.level 1) k more position (.symbol .closeBracket :: rest)) :
      Derives param .applied (max m (k + 1)) ts (.index target position) rest
  | ofApplied {m : Nat} {ts rest : List Token} {e : Expr}
      (h : Derives param .applied m ts e rest) : Derives param .prefixed m ts e rest
  | unary {m : Nat} {t : Token} {ts rest : List Token} {op : UnaryOp} {operand : Expr}
      (hop : t.unaryOp? = some op) (hoperand : Derives param .prefixed m ts operand rest) :
      Derives param .prefixed (m + 1) (t :: ts) (.unary op operand) rest
  | ofPrefixed {m : Nat} {ts rest : List Token} {e : Expr}
      (h : Derives param .prefixed m ts e rest) : Derives param (.level castLevel) m ts e rest
  | cast {m k : Nat} {ts more rest : List Token} {operand : Expr} {type : String}
      (hoperand : Derives param (.level castLevel) m ts operand (.keywordAs :: more))
      (htype : SpellsType .single k more type rest) :
      Derives param (.level castLevel) (max m k) ts (.cast operand type) rest
  | ofTighter {m k : Nat} {ts rest : List Token} {e : Expr}
      (h : Derives param (.level (k + 1)) m ts e rest) : Derives param (.level k) m ts e rest
  | binary {m k : Nat} {t : Token} {ts more rest : List Token} {op : BinaryOp}
      {left right : Expr} (hop : t.binaryOp? = some op)
      (hleft : Derives param (.level op.level) m ts left (t :: more))
      (hright : Derives param (.level (op.level + 1)) k more right rest) :
      Derives param (.level op.level) (max m (k + 1)) ts (.binary op left right) rest

/-! ### Operators -/

/-- The level at which a token continues an expression, and 0 if it does not. -/
def Token.level : Token → Nat
  | .keywordAs => castLevel
  | t =>
    match t.binaryOp? with
    | some op => op.level
    | none => 0

/-- The level at which the first of some tokens continues an expression. -/
def headLevel : List Token → Nat
  | [] => 0
  | t :: _ => t.level

/-- A token has the level of the operator that it is. -/
theorem Token.level_of_binaryOp? {t : Token} {op : BinaryOp} (h : t.binaryOp? = some op) :
    t.level = op.level := by
  cases t with
  | symbol s => cases s <;> cases h <;> rfl
  | _ => cases h

/-- Every binary operator is above the lowest level. -/
theorem BinaryOp.level_pos (op : BinaryOp) : 0 < op.level := by
  cases op <;> decide

/-- Casts bind more tightly than all binary operators. -/
theorem BinaryOp.level_lt (op : BinaryOp) : op.level < castLevel := by
  cases op <;> decide

/-- Casts have the highest level. -/
theorem headLevel_le (ts : List Token) : headLevel ts ≤ castLevel := by
  cases ts with
  | nil => exact Nat.zero_le _
  | cons t more =>
      rw [headLevel, Token.level.eq_def]
      split
      · exact Nat.le_refl _
      · split
        · exact Nat.le_of_lt (BinaryOp.level_lt _)
        · exact Nat.zero_le _

/-- A phrase of a level is a phrase of every looser one. -/
theorem Derives.loosen {param : String} {j k m : Nat} {ts rest : List Token} {e : Expr}
    (h : Derives param (.level k) m ts e rest) (hj : j ≤ k) :
    Derives param (.level j) m ts e rest := by
  induction k with
  | zero => exact Nat.le_zero.1 hj ▸ h
  | succ k ih =>
      by_cases heq : j = k + 1
      · exact heq ▸ h
      · exact ih (.ofTighter h) (by omega)

/-! ### First tokens -/

/-- Whether a token begins an atom. -/
def Token.startsAtom : Token → Bool
  | .literal _ | .ident _ | .symbol .openParen => true
  | _ => false

/-- Whether tokens can begin a phrase of a nonterminal. Arguments may begin in any way. -/
def Nonterminal.Starts : Nonterminal → List Token → Prop
  | arguments, _ => True
  | atom, ts | applied, ts => ∃ t more, ts = t :: more ∧ t.startsAtom = true
  | prefixed, ts | level _, ts =>
    ∃ t more, ts = t :: more ∧ (t.startsAtom = true ∨ t.unaryOp?.isSome = true)

/-- A path begins with a name. -/
theorem SpellsPath.starts {ts rest : List Token} {path : String} (h : SpellsPath ts path rest) :
    ∃ name more, ts = .ident name :: more := by
  induction h with
  | name => exact ⟨_, _, rfl⟩
  | segment _ ih => exact ih

/-- **A phrase begins** as its nonterminal allows. -/
theorem Derives.starts {param : String} {n : Nonterminal} {m : Nat} {ts rest : List Token}
    {tree : n.Tree} (h : Derives param n m ts tree rest) : n.Starts ts := by
  have hpathStarts : ∀ {ts rest : List Token} {path : String}, SpellsPath ts path rest →
      ∃ t more, ts = t :: more ∧ t.startsAtom = true := by
    intro ts rest path hpath
    obtain ⟨name, more, rfl⟩ := hpath.starts
    exact ⟨_, _, rfl, rfl⟩
  induction h with
  | noArgument => exact trivial
  | lastArgument _ _ => exact trivial
  | argument _ _ _ _ => exact trivial
  | constant => exact ⟨_, _, rfl, rfl⟩
  | parameter hpath _ => exact hpathStarts hpath
  | free hpath _ => exact hpathStarts hpath
  | call hpath _ _ => exact hpathStarts hpath
  | parens _ _ => exact ⟨_, _, rfl, rfl⟩
  | ofAtom _ ih => exact ih
  | member _ ih => exact ih
  | method _ _ ih _ => exact ih
  | index _ _ ih _ => exact ih
  | ofApplied _ ih =>
      obtain ⟨t, more, rfl, ht⟩ := ih
      exact ⟨t, more, rfl, .inl ht⟩
  | unary hop _ _ => exact ⟨_, _, rfl, .inr (Option.isSome_iff_exists.2 ⟨_, hop⟩)⟩
  | ofPrefixed _ ih => exact ih
  | cast _ _ ih => exact ih
  | ofTighter _ ih => exact ih
  | binary _ _ _ ih _ => exact ih

/-! ### What is behind a phrase -/

/-- What follows a path is the end of the tokens. -/
theorem SpellsPath.isSuffix {ts rest : List Token} {path : String} (h : SpellsPath ts path rest) :
    rest <:+ ts := by
  induction h with
  | name => exact List.suffix_cons _ _
  | segment _ ih => exact ((List.suffix_cons _ _).trans (List.suffix_cons _ _)).trans ih

/-- What follows a type or a part of one is the end of the tokens. -/
theorem SpellsType.isSuffix {part : TypePart} {m : Nat} {ts rest : List Token} {text : String}
    (h : SpellsType part m ts text rest) : rest <:+ ts := by
  induction h with
  | bare hpath _ => exact hpath.isSuffix
  | applied hpath _ ih => exact (ih.trans (List.suffix_cons _ _)).trans hpath.isSuffix
  | last _ ih => exact (List.suffix_cons _ _).trans ih
  | more _ _ ih ihargs => exact (ihargs.trans (List.suffix_cons _ _)).trans ih

/-- **A phrase is read from the front:** the tokens behind it are the last ones. -/
theorem Derives.isSuffix {param : String} {n : Nonterminal} {m : Nat} {ts rest : List Token}
    {tree : n.Tree} (h : Derives param n m ts tree rest) : rest <:+ ts := by
  induction h with
  | noArgument => exact List.suffix_cons _ _
  | lastArgument _ ih => exact (List.suffix_cons _ _).trans ih
  | argument _ _ ih ihargs => exact (ihargs.trans (List.suffix_cons _ _)).trans ih
  | constant => exact List.suffix_cons _ _
  | parameter hpath _ => exact hpath.isSuffix
  | free hpath _ => exact hpath.isSuffix
  | call hpath _ ih => exact (ih.trans (List.suffix_cons _ _)).trans hpath.isSuffix
  | parens _ ih => exact ((List.suffix_cons _ _).trans ih).trans (List.suffix_cons _ _)
  | ofAtom _ ih => exact ih
  | member _ ih => exact ((List.suffix_cons _ _).trans (List.suffix_cons _ _)).trans ih
  | method _ _ ih ihargs =>
      have hopened := (List.suffix_cons _ _).trans ((List.suffix_cons _ _).trans ih)
      exact (ihargs.trans (List.suffix_cons _ _)).trans hopened
  | index _ _ ih ihposition =>
      exact (((List.suffix_cons _ _).trans ihposition).trans (List.suffix_cons _ _)).trans ih
  | ofApplied _ ih => exact ih
  | unary _ _ ih => exact ih.trans (List.suffix_cons _ _)
  | ofPrefixed _ ih => exact ih
  | cast _ htype ih => exact (htype.isSuffix.trans (List.suffix_cons _ _)).trans ih
  | ofTighter _ ih => exact ih
  | binary _ _ _ ih ihright => exact (ihright.trans (List.suffix_cons _ _)).trans ih

/-! ### Lambdas -/

/-- **The tokens of a lambda,** `| param | body` or `param => body`. The body opens a level. -/
inductive Lambda.Spells : (levels : Nat) → List Token → Lambda → Prop
  | bars {m : Nat} {ts : List Token} {param : String} {body : Expr}
      (h : Derives param (.level 1) m ts body []) :
      Spells (m + 1) (.symbol .pipe :: .ident param :: .symbol .pipe :: ts) ⟨param, body⟩
  | arrow {m : Nat} {ts : List Token} {param : String} {body : Expr}
      (h : Derives param (.level 1) m ts body []) :
      Spells (m + 1) (.ident param :: .symbol .arrow :: ts) ⟨param, body⟩

end MemberAccess
