import Scaffold.Text.Words

/-! # Plurals

The plural of the last word of an identifier, by the spelling rules of English that
need no dictionary. The ending is judged without regard to case, and the word keeps
the case it has.
-/

namespace Scaffold.Naming

/-- Whether a text ends in one of some endings. -/
def endsInOneOf (text : List Char) (endings : List String) : Bool :=
  endings.any fun ending => ending.toList.isSuffixOf text

/-- The plural of a word: a hiss takes another syllable, and a `y` behind a consonant
turns into `ies`. A `y` on its own is no such `y`. -/
def pluralChars (word : List Char) : List Char :=
  let lower := word.map Char.toLower
  if endsInOneOf lower ["s", "x", "ch", "sh"] then word ++ "es".toList
  else if endsInOneOf lower ["y"] && !endsInOneOf lower ["ay", "ey", "iy", "oy", "uy"] &&
      lower != ['y'] then
    word.dropLast ++ "ies".toList
  else word ++ ['s']

def plural (word : String) : String :=
  String.ofList (pluralChars word.toList)

end Scaffold.Naming
