import Scaffold.Schema.Field
import Scaffold.Text.Words

/-! # Documentation

The documentation of a declaration is written above it as a block comment, without
the words that only speak to this library. What is left of a line keeps its words
in order with one blank between them; a line of which nothing is left vanishes, and
so does a documentation without lines.
-/

namespace Scaffold.TypeScript

/-- One level of indentation. -/
def indentUnit : String := "    "

/-- Whether a word speaks to this library and not to the reader. -/
def isMarkerWord (word : String) : Bool :=
  Schema.markerStart.toList.isPrefixOf word.toList

/-- The words of a line that are meant for the reader. -/
def readerWords (line : String) : List String :=
  (Text.words line).filter fun word => !isMarkerWord word

/-- The lines that are left of a documentation. -/
def readerLines (text : String) : List String :=
  ((Text.lines text).map fun line => " ".intercalate (readerWords line)).filter
    fun line => !line.isEmpty

/-- A documentation without the words that do not speak to the reader. -/
def cleanText? (text : String) : Option String :=
  match readerLines text with
  | [] => none
  | lines => some ("\n".intercalate lines)

def cleanDocumentation (documentation : Option String) : Option String :=
  documentation.bind cleanText?

/-- A text as a block comment. -/
def blockComment (text indent : String) : String :=
  indent ++ "/**\n" ++
    String.join ((Text.lines text).map fun line => indent ++ " * " ++ line ++ "\n") ++
    indent ++ " */\n"

/-- The comment above a declaration, if its documentation says anything. -/
def commentAbove (documentation : Option String) (indent : String) : String :=
  match cleanDocumentation documentation with
  | some text => blockComment text indent
  | none => ""

end Scaffold.TypeScript
