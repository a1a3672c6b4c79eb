import MemberAccess.Binary64.Digits

/-!
# Type expressions

The types of objects are built from primitives, collections, options and boxes, and from types
that are declared by number. A type is written in a short notation and named in full in messages.

## Main definitions

* `Prim`, `Ty`: the type expressions.
* `Ty.name`: the full name of a type, if that of the declared types is known.
* `Ty.short`: the notation of a type.
* `Ty.ofShort?`: the type of a notation.
* `Ty.contents`: a type and the types inside its options and boxes.
* `Ty.catalog`: the types that a cell may have.
-/

namespace MemberAccess

/-- **Primitive types.** -/
inductive Prim where
  | bool | char | unit
  | i8 | i16 | i32 | i64 | i128 | isize
  | u8 | u16 | u32 | u64 | u128 | usize
  | f32 | f64
  | string | str | duration
deriving DecidableEq

namespace Prim

/-- All primitive types. -/
def all : List Prim :=
  [bool, char, unit, i8, i16, i32, i64, i128, isize, u8, u16, u32, u64, u128, usize, f32, f64,
    string, str, duration]

/-- The notation of a primitive type. -/
def short : Prim → String
  | bool => "bool"
  | char => "char"
  | unit => "()"
  | i8 => "i8"
  | i16 => "i16"
  | i32 => "i32"
  | i64 => "i64"
  | i128 => "i128"
  | isize => "isize"
  | u8 => "u8"
  | u16 => "u16"
  | u32 => "u32"
  | u64 => "u64"
  | u128 => "u128"
  | usize => "usize"
  | f32 => "f32"
  | f64 => "f64"
  | string => "String"
  | str => "&\x27static str"
  | duration => "Duration"

/-- The full name of a primitive type. -/
def name : Prim → String
  | string => "alloc::string::String"
  | str => "&str"
  | duration => "core::time::Duration"
  | p => p.short

end Prim

/-- **Type expressions.** -/
inductive Ty where
  | prim (p : Prim)
  | vec (item : Ty)
  | deque (item : Ty)
  | btreeMap (key value : Ty)
  | hashMap (key value : Ty)
  | option (content : Ty)
  | boxed (content : Ty)
  | declared (number : Nat)
deriving DecidableEq

namespace Ty

/-! ### Names -/

/-- A type constructor applied to one argument. -/
def apply (constructor argument : String) : String :=
  constructor ++ "<" ++ argument ++ ">"

/-- The decimal text of the number of a declared type. -/
def numberText (n : Nat) : String := String.ofList (Digits.ofNat n)

/-- **The full name of a type,** where the declared types are the numbered instances of `family`. -/
def name (family : String) : Ty → String
  | prim p => p.name
  | vec t => apply "alloc::vec::Vec" (t.name family)
  | deque t => apply "alloc::collections::vec_deque::VecDeque" (t.name family)
  | btreeMap k v =>
    apply "alloc::collections::btree::map::BTreeMap" (k.name family ++ ", " ++ v.name family)
  | hashMap k v =>
    apply "std::collections::hash::map::HashMap" (k.name family ++ ", " ++ v.name family)
  | option t => apply "core::option::Option" (t.name family)
  | boxed t => apply "alloc::boxed::Box" (t.name family)
  | declared n => apply family (numberText n)

/-- **The notation of a type.** -/
def short : Ty → String
  | prim p => p.short
  | vec t => apply "Vec" t.short
  | deque t => apply "VecDeque" t.short
  | btreeMap k v => apply "BTreeMap" (k.short ++ ", " ++ v.short)
  | hashMap k v => apply "HashMap" (k.short ++ ", " ++ v.short)
  | option t => apply "Option" t.short
  | boxed t => apply "Box" t.short
  | declared n => "T" ++ numberText n

/-! ### Reading the notation -/

/-- Splits a text at its first comma outside of angle brackets, of which `depth` are open, and
drops the blanks after the comma. -/
def splitArguments (depth : Nat) : List Char → List Char × List Char
  | [] => ([], [])
  | c :: cs =>
    if c = ',' ∧ depth = 0 then ([], cs.dropWhile (· = ' '))
    else
      let depth := if c = '<' then depth + 1 else if c = '>' then depth - 1 else depth
      let later := splitArguments depth cs
      (c :: later.1, later.2)

/-- Neither the arguments nor what follows them are longer than the text. -/
theorem splitArguments_length (depth : Nat) (cs : List Char) :
    (splitArguments depth cs).1.length ≤ cs.length ∧
      (splitArguments depth cs).2.length ≤ cs.length := by
  induction cs generalizing depth with
  | nil => simp [splitArguments]
  | cons c cs ih =>
    unfold splitArguments
    split
    · have := (List.dropWhile_sublist (l := cs) (· = ' ')).length_le
      simp only [List.length_cons, List.length_nil]
      omega
    · have := ih (if c = '<' then depth + 1 else if c = '>' then depth - 1 else depth)
      simp only [List.length_cons]
      omega

/-- The type that a notation without arguments denotes. -/
def ofWord? (word : List Char) : Option Ty :=
  match Prim.all.find? (·.short.toList = word) with
  | some p => some (prim p)
  | none =>
    match word with
    | 'T' :: digits =>
      if digits ≠ [] ∧ digits.all Digits.isDigit then some (declared (Digits.toNat digits))
      else none
    | _ => none

/-- The constructor of one argument that a word denotes. -/
def unary? (word : List Char) : Option (Ty → Ty) :=
  if word = "Vec".toList then some vec
  else if word = "VecDeque".toList then some deque
  else if word = "Option".toList then some option
  else if word = "Box".toList then some boxed
  else none

/-- The constructor of two arguments that a word denotes. -/
def binary? (word : List Char) : Option (Ty → Ty → Ty) :=
  if word = "BTreeMap".toList then some btreeMap
  else if word = "HashMap".toList then some hashMap
  else none

/-- The type that the characters of a notation denote. -/
def ofChars? (cs : List Char) : Option Ty :=
  let word := cs.takeWhile (· ≠ '<')
  match _h : cs.dropWhile (· ≠ '<') with
  | [] => ofWord? word
  | _ :: more =>
    if more.getLast? ≠ some '>' then none
    else
      match unary? word with
      | some make => (ofChars? more.dropLast).map make
      | none =>
        match binary? word with
        | some make => do
          let key ← ofChars? (splitArguments 0 more.dropLast).1
          let value ← ofChars? (splitArguments 0 more.dropLast).2
          return make key value
        | none => none
termination_by cs.length
decreasing_by
  all_goals
    have shorter := (List.dropWhile_sublist (l := cs) (· ≠ '<')).length_le
    have parts := splitArguments_length 0 more.dropLast
    rw [_h] at shorter
    simp only [List.length_cons, List.length_dropLast] at shorter parts ⊢
    omega

/-- **The type of a notation.** -/
def ofShort? (s : String) : Option Ty := ofChars? s.toList

/-! ### Contents -/

/-- **A type and the types inside it** that options and boxes wrap. -/
def contents : Ty → List Ty
  | option t => option t :: t.contents
  | boxed t => boxed t :: t.contents
  | t => [t]

/-! ### The catalog -/

/-- The number of types that can be declared. -/
def declarationLimit : Nat := 5

/-- A declared type, and the options and boxes of it that a cell may hold. -/
def declaredFamily (n : Nat) : List Ty :=
  let t := declared n
  [t, option t, boxed t, option (boxed t), boxed (option t), option (option t), boxed (boxed t)]

/-- **The types that a cell may have,** in their order. -/
def catalog : List Ty :=
  let i32 := prim .i32
  let string := prim .string
  [i32, prim .i64, prim .u8, prim .u64, prim .bool, prim .char, string, prim .unit, vec i32,
    option i32, option string, boxed i32, boxed string, option (boxed string),
    boxed (option i32)] ++ (List.range declarationLimit).flatMap declaredFamily

end Ty

end MemberAccess
