import MemberAccess.Lambda.Expr.Render
import MemberAccess.Lambda.OfText
import MemberAccess.Proofs.Lambda.Grammar

/-!
# Lambdas that can be printed

Every lambda has a text, but not every text reads back: names may be keywords or no names at all,
and a node for the parameter may bear another name. Here are the lambdas whose texts do, with the
number of levels of nesting that reading them back opens. Operands that are casts or operators are
put between parentheses, so they open a level more than the node alone.

## Main definitions

* `IsName`, `IsPath`, `IsType`: the names, paths and types that read back.
* `Expr.Printable`, `Lambda.Printable`: the printable expressions and lambdas.
* `typeDepth`, `Expr.need`: the levels that are opened at a time at most.
-/

namespace MemberAccess

open Text

/-! ### Names, paths and types -/

/-- **A name** is an identifier that is no keyword and no truth value. -/
structure IsName (s : String) : Prop where
  identifier : IsIdentifier s.toList
  ne_as : s ≠ "as"
  ne_true : s ≠ "true"
  ne_false : s ≠ "false"

instance (s : String) : Decidable (IsName s) :=
  decidable_of_iff (IsIdentifier s.toList ∧ s ≠ "as" ∧ s ≠ "true" ∧ s ≠ "false")
    ⟨fun ⟨h, ha, ht, hf⟩ => ⟨h, ha, ht, hf⟩, fun ⟨h, ha, ht, hf⟩ => ⟨h, ha, ht, hf⟩⟩

/-- **A path:** names joined by `::`. -/
inductive IsPath : String → Prop
  | name {s : String} (h : IsName s) : IsPath s
  | segment {path s : String} (hpath : IsPath path) (h : IsName s) : IsPath (path ++ "::" ++ s)

/-- **A type,** or type arguments up to the closing `>`: a path, and after it maybe types between
angle brackets that are separated by commas and blanks. The number tells how deep the brackets
nest. -/
inductive IsType : TypePart → (depth : Nat) → String → Prop
  | bare {path : String} (hpath : IsPath path) : IsType .single 0 path
  | applied {m : Nat} {path args : String} (hpath : IsPath path)
      (hargs : IsType .arguments m args) : IsType .single (m + 1) (path ++ "<" ++ args)
  | last {m : Nat} {type : String} (h : IsType .single m type) :
      IsType .arguments m (type ++ ">")
  | more {m k : Nat} {type args : String} (h : IsType .single m type)
      (hargs : IsType .arguments k args) : IsType .arguments (max m k) (type ++ ", " ++ args)

/-- How deep angle brackets nest in a text, where `opened` of them are open before it. -/
def bracketDepth (opened : Nat) : List Char → Nat
  | [] => opened
  | c :: cs =>
    let after := if c = '<' then opened + 1 else if c = '>' then opened - 1 else opened
    max opened (bracketDepth after cs)

/-- **How deep the argument lists of a type nest.** -/
def typeDepth (type : String) : Nat :=
  bracketDepth 0 type.toList

/-! ### Constants -/

/-- **A constant that reads back:** a truth value, an integer that is not negative, or a string
that is quoted without the code point of a character. Doubles are left out. -/
def Literal.Printable : Literal → Prop
  | int n => 0 ≤ n.toInt
  | float _ => False
  | string s => ∀ c ∈ s.toList, ¬['\\', 'u'] <+: escape c
  | bool _ => True

/-! ### Expressions -/

namespace Expr

mutual

/-- **A printable expression** over a parameter. -/
def Printable (param : String) : Expr → Prop
  | parameter name => name = param ∧ param ≠ "_"
  | free name => IsPath name ∧ (param = "_" ∨ name ≠ param)
  | member target name => target.Printable param ∧ IsName name
  | cast operand type => operand.Printable param ∧ ∃ m, IsType .single m type
  | constant value => value.Printable
  | call path args => IsPath path ∧ PrintableArgs param args
  | method receiver name args =>
    receiver.Printable param ∧ IsName name ∧ PrintableArgs param args
  | index target position => target.Printable param ∧ position.Printable param
  | unary _ operand => operand.Printable param
  | binary _ left right => left.Printable param ∧ right.Printable param

/-- Printable arguments. -/
def PrintableArgs (param : String) : List Expr → Prop
  | [] => True
  | a :: as => a.Printable param ∧ PrintableArgs param as

end

/-- What an operand needs, given what the node alone needs. -/
def operandNeed (e : Expr) (need : Nat) : Nat :=
  if e.isLoose then need + 1 else need

mutual

/-- **The levels of nesting** that are open in the text of an expression at a time at most, besides
the one of the expression itself. -/
def need : Expr → Nat
  | parameter _ | free _ | constant _ => 0
  | member target _ => target.operandNeed target.need
  | cast operand type => max (operand.operandNeed operand.need) (typeDepth type)
  | call _ args => needArgs args
  | method receiver _ args => max (receiver.operandNeed receiver.need) (needArgs args)
  | index target position => max (target.operandNeed target.need) (position.need + 1)
  | unary _ operand => operand.operandNeed operand.need + 1
  | binary _ left right =>
    max (left.operandNeed left.need) (right.operandNeed right.need + 1)

/-- What arguments need: each of them opens a level. -/
def needArgs : List Expr → Nat
  | [] => 0
  | a :: as => max (a.need + 1) (needArgs as)

end

end Expr

/-- **A printable lambda.** -/
structure Lambda.Printable (l : Lambda) : Prop where
  param : IsName l.param
  body : l.body.Printable l.param

/-! ### The characters of names and paths -/

/-- An identifier has a first character. -/
theorem exists_cons_of_isIdentifier {cs : List Char} (h : IsIdentifier cs) :
    ∃ c more, cs = c :: more ∧ startsIdentifier c = true ∧
      ∀ d ∈ more, continuesIdentifier d = true := by
  cases cs with
  | nil => exact h.elim
  | cons c more => exact ⟨c, more, rfl, h⟩

/-- A name has a first character. -/
theorem IsName.exists_cons {s : String} (h : IsName s) :
    ∃ c more, s.toList = c :: more ∧ startsIdentifier c = true ∧
      ∀ d ∈ more, continuesIdentifier d = true :=
  exists_cons_of_isIdentifier h.identifier

/-- The characters of a name continue an identifier. -/
theorem IsName.continues {s : String} (h : IsName s) : ∀ c ∈ s.toList, continuesIdentifier c := by
  obtain ⟨c, more, hs, hc, hmore⟩ := h.exists_cons
  rw [hs]
  exact List.forall_mem_cons.2 ⟨continuesIdentifier_of_starts hc, hmore⟩

/-- A path has no angle brackets. -/
theorem IsPath.ne_bracket {path : String} (h : IsPath path) :
    ∀ c ∈ path.toList, c ≠ '<' ∧ c ≠ '>' := by
  have hname : ∀ {s : String}, IsName s → ∀ c ∈ s.toList, c ≠ '<' ∧ c ≠ '>' := by
    intro s hs c hc
    have hcontinues := hs.continues c hc
    constructor
    · rintro rfl
      exact absurd hcontinues (by decide)
    · rintro rfl
      exact absurd hcontinues (by decide)
  induction h with
  | name h => exact hname h
  | segment _ h ih =>
      intro c hc
      simp only [String.toList_append, List.mem_append] at hc
      rcases hc with (hc | hc) | hc
      · exact ih c hc
      · have hcolon : c = ':' := by simpa using hc
        exact hcolon ▸ ⟨by decide, by decide⟩
      · exact hname h c hc

/-! ### The depth of types -/

/-- Brackets that are open are counted. -/
theorem le_bracketDepth (opened : Nat) (cs : List Char) : opened ≤ bracketDepth opened cs := by
  cases cs with
  | nil => exact Nat.le_refl _
  | cons c cs => exact Nat.le_max_left _ _

/-- Text without angle brackets opens none. -/
theorem bracketDepth_append {cs : List Char} (h : ∀ c ∈ cs, c ≠ '<' ∧ c ≠ '>') (opened : Nat)
    (more : List Char) : bracketDepth opened (cs ++ more) = bracketDepth opened more := by
  induction cs with
  | nil => rfl
  | cons c cs ih =>
      obtain ⟨⟨hless, hgreater⟩, hcs⟩ := List.forall_mem_cons.1 h
      rw [List.cons_append, bracketDepth, if_neg hless, if_neg hgreater, ih hcs]
      exact Nat.max_eq_right (le_bracketDepth opened more)

/-- The depth of a text that begins with a part of a type. Type arguments close the bracket before
them. -/
def TypePart.Nests (depth : Nat) (text : String) : TypePart → Prop
  | single => ∀ opened more, bracketDepth opened (text.toList ++ more) =
      max (opened + depth) (bracketDepth opened more)
  | arguments => ∀ opened more, bracketDepth (opened + 1) (text.toList ++ more) =
      max (opened + 1 + depth) (bracketDepth opened more)

/-- The levels of a type are those of the brackets in its text. -/
theorem IsType.nests {part : TypePart} {m : Nat} {text : String} (h : IsType part m text) :
    part.Nests m text := by
  induction h with
  | bare hpath =>
      intro opened more
      rw [bracketDepth_append hpath.ne_bracket]
      exact (Nat.max_eq_right (le_bracketDepth opened more)).symm
  | @applied m path args hpath _ ih =>
      intro opened more
      have hargs := ih opened more
      have hbound := le_bracketDepth opened more
      simp only [String.toList_append, List.append_assoc]
      rw [bracketDepth_append hpath.ne_bracket]
      simp only [String.reduceToList, List.singleton_append, bracketDepth, if_true, hargs]
      omega
  | @last m type _ ih =>
      intro opened more
      simp only [String.toList_append, List.append_assoc]
      rw [ih (opened + 1)]
      have hclose : ¬('>' = '<') := by decide
      simp only [String.reduceToList, List.singleton_append, bracketDepth, hclose, if_true,
        if_false, Nat.add_sub_cancel]
      omega
  | @more m k type args _ _ ih ihargs =>
      intro opened more
      simp only [String.toList_append, List.append_assoc]
      rw [ih (opened + 1), bracketDepth_append (by simp), ihargs]
      omega

/-- **The depth of a type** is how deep its argument lists nest. -/
theorem IsType.typeDepth_eq {m : Nat} {type : String} (h : IsType .single m type) :
    typeDepth type = m := by
  have hdepth := h.nests 0 []
  rw [List.append_nil] at hdepth
  rw [typeDepth, hdepth, bracketDepth]
  omega

end MemberAccess
