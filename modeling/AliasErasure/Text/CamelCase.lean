set_option autoImplicit false

/-! # Spellings of field names

A field `user_id` is called `userId` in JSON. Two names that differ only in underscores and in the
case of ASCII letters have the same *folded* form.
-/

namespace AliasErasure.Text

/-- Drops underscores and capitalises the letter after each; `capital` says whether an underscore
came just before. -/
def lowerCamelFrom (capital : Bool) : List Char → List Char
  | [] => []
  | c :: rest =>
      if c = '_' then lowerCamelFrom true rest
      else (if capital then c.toUpper else c) :: lowerCamelFrom false rest

/-- The lowerCamelCase form of a name written with underscores. -/
def lowerCamel (name : String) : String := String.ofList (lowerCamelFrom false name.toList)

/-- The name without underscores and in lower case. -/
def folded (name : String) : String :=
  String.ofList ((name.toList.filter (· != '_')).map Char.toLower)

end AliasErasure.Text
