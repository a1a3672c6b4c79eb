import MemberAccess.Registry.TypeInfo
import MemberAccess.Text.Quoted

/-!
# The log

Parsing a path and compiling an accessor leave records of what was decided. A record keeps its
parts, and its text is made from them.

## Main definitions

* `SetStrategy`: how an accessor writes its member.
* `Link`: one step of a chain of reads, as the log shows it.
* `LogRecord`: a record, with its level and its text.
* `Logged`: a value with the records that its computation left.
-/

namespace MemberAccess

/-- **How an accessor writes its member:** by the setter of a public member of the root, by
borrowing the owner along the path, or by a setter that the caller supplied. -/
inductive SetStrategy where
  | direct | compound | explicit
deriving DecidableEq

/-- The name of a strategy. -/
def SetStrategy.text : SetStrategy → String
  | direct => "Direct"
  | compound => "Compound"
  | explicit => "Explicit"

/-! ### Links -/

/-- **A link of a chain:** the reading of a member of a type, or the opening of a wrapper. -/
inductive Link where
  | member (kind : MemberKind) (name valueName : String)
  | unwrap (target : String)
deriving DecidableEq

/-- The text of a link. -/
def Link.text : Link → String
  | member kind name valueName => kind.text ++ " " ++ name ++ ": " ++ valueName
  | unwrap target => "unwrap " ++ target

/-- The text of a chain of links. -/
def renderLinks (links : List Link) : String :=
  "[" ++ ", ".intercalate (links.map Link.text) ++ "]"

/-- How the setter of a compound strategy assigns its member. -/
inductive AssignMode where
  | slot | setter
deriving DecidableEq

/-- The name of a mode of assignment. -/
def AssignMode.text : AssignMode → String
  | slot => "slot"
  | setter => "setter"

/-- The layout of a setter. -/
inductive SetterLayout where
  | direct
  | compound (parents : List Link) (mode : AssignMode) (member : String)
  | explicit
deriving DecidableEq

/-- The text of the layout of a setter. -/
def SetterLayout.text : SetterLayout → String
  | direct => SetStrategy.direct.text
  | compound parents mode member =>
    SetStrategy.compound.text ++ " \x7b parents: " ++ renderLinks parents ++ ", " ++ mode.text ++
      ": " ++ Text.quoted member ++ " \x7d"
  | explicit => SetStrategy.explicit.text

/-! ### Records -/

/-- **A record of the log.** Paths are given by their full names and roots by their types'
names. -/
inductive LogRecord where
  | parsed (path root : String)
  | nonPublicFallback (member root : String)
  | compiled (path root : String) (strategy : SetStrategy)
  | getterLinks (path : String) (links : List Link)
  | setter (path : String) (layout : SetterLayout)
deriving DecidableEq

namespace LogRecord

/-- The level of a record. -/
def level : LogRecord → String
  | nonPublicFallback _ _ => "DEBUG"
  | _ => "TRACE"

/-- The text of a record without its level. -/
def message : LogRecord → String
  | parsed path root => "parsed member path `" ++ path ++ "` of `" ++ root ++ "`"
  | nonPublicFallback member root =>
    "writing non-public member `" ++ member ++ "` of `" ++ root ++ "` through the compound path"
  | compiled path root strategy =>
    "compiled accessor `" ++ path ++ "` of `" ++ root ++ "` with " ++ strategy.text ++ " setter"
  | getterLinks path links => "getter links of `" ++ path ++ "`: " ++ renderLinks links
  | setter path layout => "setter of `" ++ path ++ "`: " ++ layout.text

/-- The text of a record. -/
def text (r : LogRecord) : String := r.level ++ " " ++ r.message

end LogRecord

/-! ### Computations with a log -/

/-- **A value and the records** that its computation left, oldest first. -/
structure Logged (α : Type) where
  value : α
  log : List LogRecord

namespace Logged

instance : Monad Logged where
  pure a := ⟨a, []⟩
  bind x f := ⟨(f x.value).value, x.log ++ (f x.value).log⟩

/-- Leaves a record. -/
def emit (r : LogRecord) : Logged Unit := ⟨(), [r]⟩

end Logged

end MemberAccess
