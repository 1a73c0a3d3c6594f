import AliasErasure.Schema.Types

set_option autoImplicit false

/-! # Aliases and their payloads

A marked message with exactly one field is an *alias*: it stands for the type of that field, its
*payload*. An alias can be erased unless the payload's type is declared inside the alias, because
erasing the alias would erase that declaration too.
-/

namespace AliasErasure

/-- The payload of an alias; a message that is not marked, or that has no field or several, is no
alias. -/
def Message.payload? (m : Message) : Option Field :=
  if m.marked then
    match m.fields with
    | [payload] => some payload
    | _ => none
  else none

/-- Whether a qualified name is that of something declared inside `scope`: it goes on with a dot
after the name of the scope. -/
def isInside (scope name : String) : Bool := (scope.toList ++ ['.']).isPrefixOf name.toList

/-- Whether a field refers to something declared inside the message. -/
def Message.declares (m : Message) (f : Field) : Bool :=
  match f.typeName? with
  | some name => isInside m.fullName name
  | none => false

/-- The payload of an alias that can be erased. -/
def Message.erasablePayload? (m : Message) : Option Field :=
  match m.payload? with
  | some payload => if m.declares payload then none else some payload
  | none => none

/-- Whether a message is an alias that can be erased. -/
def Message.isErasable (m : Message) : Bool := m.erasablePayload?.isSome

end AliasErasure
