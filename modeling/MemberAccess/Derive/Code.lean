import MemberAccess.Derive.Struct

/-!
# Code of derived structs

The code of a derived struct describes it as a composite and lists its members with their handles.
It is written as tokens with a space between most of them; a closing bracket follows its content
at once.

## Main definitions

* `CratePath.infoItem`: an item that the code names.
* `DerivedMember.code`: the description of a member.
* `DerivedStruct.code`: the code of a struct, a frame around the descriptions of its members.
-/

namespace MemberAccess

/-! ### Items -/

/-- An item of the module `info` under the crate path. -/
def CratePath.infoItem (p : CratePath) (item : String) : String :=
  p.render ++ " :: info :: " ++ item

/-! ### Members -/

/-- Code between round brackets. -/
def bracketed (code : String) : String :=
  "(" ++ code ++ ")"

/-- A call of `function` with a method of the struct, if it has the method. -/
def methodCall (function : String) : Option String → String
  | none => ""
  | some method => function ++ bracketed ("Self :: " ++ method)

/-- The handles of a member: how it is read, and how it is borrowed and assigned if it can be. -/
def MemberBacking.code : MemberBacking → String
  | field ident readonly =>
    bracketed ("| o | & o . " ++ ident) ++
      " . with_get_mut " ++ bracketed ("| o | & mut o . " ++ ident) ++
      (if readonly then "" else " . with_set " ++ bracketed ("| o , v | o . " ++ ident ++ " = v"))
  | methods get getMut set =>
    bracketed ("Self :: " ++ get) ++ methodCall " . with_get_mut " getMut ++
      methodCall " . with_set " set

/-- **The description of a member.** -/
def DerivedMember.code (p : CratePath) (m : DerivedMember) : String :=
  p.infoItem "MemberInfo" ++ " :: " ++ m.kind.text ++ " :: < Self , " ++ m.type ++ " > (" ++
    m.name.text ++ " , " ++ p.infoItem "Accessibility" ++ " :: " ++
    m.accessibility.variant ++ " , " ++ p.infoItem "MemberHandles" ++ " :: < Self , " ++ m.type ++
    " > :: new " ++ m.backing.code ++ ")"

/-! ### Structs -/

/-- The descriptions of members, with a comma after each. -/
def memberList (p : CratePath) (ms : List DerivedMember) : String :=
  " ".intercalate (ms.map fun m => m.code p ++ " ,")

/-- The code of a struct up to the list of its members. The struct is a composite, which is made
when it is first asked for. -/
def codeFront (p : CratePath) (ident : String) : String :=
  let typeInfo := p.infoItem "TypeInfo"
  let cell := p.infoItem "NonGenericTypeInfoCell"
  "impl " ++ p.infoItem "Typed" ++ " for " ++ ident ++
    " \x7b fn type_info () -> & 'static " ++ typeInfo ++ " \x7b static CELL : " ++ cell ++ " = " ++
    cell ++ " :: new () ; CELL . get_or_init (|| \x7b " ++ typeInfo ++
    " :: composite :: < Self > (["

/-- The code of a struct after the list of its members. -/
def codeBack : String := "]) \x7d) \x7d \x7d"

/-- **The code of a derived struct.** -/
def DerivedStruct.code (s : DerivedStruct) : String :=
  codeFront s.cratePath s.ident ++ memberList s.cratePath s.members ++ codeBack

end MemberAccess
