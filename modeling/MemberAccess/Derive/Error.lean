import MemberAccess.Source.Fault

/-!
# What is wrong with a declaration

A declaration may be of a kind that has no members, its attributes may not be readable as code, or
they may say something that is unknown, said twice or missing.

## Main definitions

* `UnnamedKind`, `AttributePlace`: what the messages name.
* `DeriveError`: the errors.
* `DeriveError.message`: their messages.
-/

namespace MemberAccess

/-- The kinds of declarations that have no named fields. -/
inductive UnnamedKind where
  | tuple | unit | enum | union
deriving DecidableEq

/-- The name of such a kind in messages. -/
def UnnamedKind.text : UnnamedKind → String
  | tuple => "tuple structs"
  | unit => "unit structs"
  | enum => "enums"
  | union => "unions"

/-- The place where an attribute is read. -/
inductive AttributePlace where
  | field | type | property
deriving DecidableEq

/-- The name of a place in messages. -/
def AttributePlace.text : AttributePlace → String
  | field => "field"
  | type => "type"
  | property => "property"

/-- **What is wrong with a declaration.** -/
inductive DeriveError where
  | generic
  | unnamed (kind : UnnamedKind)
  | missingArguments
  | assignedArguments
  | code (fault : Source.Fault)
  | unknownVisibility
  | unsupported (place : AttributePlace)
  | duplicateAttribute
  | missingKey (key : String)
  | duplicateName (name : String)
deriving DecidableEq

/-- **The message of an error.** -/
def DeriveError.message : DeriveError → String
  | generic => "`Typed` cannot be derived for generic types"
  | unnamed kind => "`Typed` cannot be derived for " ++ kind.text
  | missingArguments => "expected attribute arguments in parentheses: #[access(...)]"
  | assignedArguments => "expected parentheses: #[access(...)]"
  | code fault => fault.message
  | unknownVisibility => "expected `\"public\"` or `\"non_public\"`"
  | unsupported place => "unsupported " ++ place.text ++ " attribute"
  | duplicateAttribute => "duplicate `access` attribute"
  | missingKey key => "property requires `" ++ key ++ "`"
  | duplicateName name => "duplicate member name `" ++ name ++ "`"

end MemberAccess
