import Scaffold.Error
import Scaffold.Naming.Plural
import Scaffold.Naming.Split

/-! # Names

The spellings of an identifier that generated files use. They are computed once for
a declaration and shared by all files that mention it, so the files agree. An
identifier with a character outside ASCII is refused: a spelling that drops or
replaces characters could make one name of two.
-/

namespace Scaffold.Naming

/-- An identifier in all its spellings. -/
structure Name where
  /-- As the schema writes it. -/
  identifier : String
  camel : String
  pascal : String
  kebab : String
  pluralCamel : String
  pluralPascal : String
deriving DecidableEq, Repr

/-- The words of an identifier run together, each with a capital in front. -/
def pascalChars (identifier : List Char) : List Char :=
  (splitWords identifier).flatMap capitalWord

/-- The words of an identifier run together, each but the first with a capital. -/
def camelChars (identifier : List Char) : List Char :=
  match splitWords identifier with
  | [] => []
  | first :: rest => lowerWord first ++ rest.flatMap capitalWord

/-- The words of an identifier in small letters with hyphens between them. -/
def kebabChars (identifier : List Char) : List Char :=
  ['-'].intercalate ((splitWords identifier).map lowerWord)

/-- Whether an identifier can be spelled: it is ASCII and not made of separators only. -/
def isSpellable (identifier : List Char) : Bool :=
  identifier.all (fun c => c.toNat < 128) && identifier.any Char.isAlphanum

/-- The spellings of an identifier. -/
def Name.ofIdentifier (identifier : String) : Except Error Name :=
  let chars := identifier.toList
  if isSpellable chars then
    let camel := camelChars chars
    let pascal := pascalChars chars
    .ok {
      identifier := identifier
      camel := String.ofList camel
      pascal := String.ofList pascal
      kebab := String.ofList (kebabChars chars)
      pluralCamel := String.ofList (pluralChars camel)
      pluralPascal := String.ofList (pluralChars pascal) }
  else .error (.invalidName identifier)

end Scaffold.Naming
