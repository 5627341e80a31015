/-! # Words and lines

Documentation attached to a declaration is free text. Two readings of it matter
here: the words of a text, which are its longest runs without a blank, and the
lines of a text. Blank is the Unicode property White_Space, so the list of
characters below is data of a standard and not a choice of this library.
-/

namespace Scaffold.Text

/-- Holds of exactly the characters with the Unicode property White_Space. -/
def isBlank (c : Char) : Bool :=
  let n := c.toNat
  (0x09 ≤ n && n ≤ 0x0D) || n == 0x20 || n == 0x85 || n == 0xA0 || n == 0x1680 ||
    (0x2000 ≤ n && n ≤ 0x200A) || n == 0x2028 || n == 0x2029 || n == 0x202F ||
    n == 0x205F || n == 0x3000

/-- The longest runs of characters that are not blank, in order. -/
def words (s : String) : List String :=
  ((s.toList.splitOnP isBlank).filter (fun w => !w.isEmpty)).map String.ofList

/-- A text is blank when it has no word. -/
def isBlankText (s : String) : Bool :=
  s.toList.all isBlank

/-- Drops one carriage return from the end of a stretch of characters. -/
def dropReturn (cs : List Char) : List Char :=
  if cs.getLast? = some '\r' then cs.dropLast else cs

/-- The stretches between line feeds as lines. A carriage return before a line
feed belongs to the line end; the last stretch, which no line feed ends, is kept
as it stands and is a line only if it holds a character. -/
def linesOfStretches : List (List Char) → List (List Char)
  | [] => []
  | [last] => if last.isEmpty then [] else [last]
  | stretch :: rest => dropReturn stretch :: linesOfStretches rest

/-- The lines of a text, without their ends. -/
def lines (s : String) : List String :=
  (linesOfStretches (s.toList.splitOn '\n')).map String.ofList

/-- Replaces the ASCII capitals of a text by small letters. -/
def lowerAscii (s : String) : String :=
  String.ofList (s.toList.map Char.toLower)

end Scaffold.Text
