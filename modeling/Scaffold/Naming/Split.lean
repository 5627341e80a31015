/-! # Words of an identifier

An identifier is read as words, whichever of the usual styles it is written in.
Every character that is no letter and no digit separates words. Inside a run of
letters and digits a word ends after a small letter that a capital follows, and
before a capital that stands between a capital and a small letter, so that a run of
capitals gives its last one to the word behind it. A digit belongs to the word
around it and leaves the case of that word as it was.

Identifiers are ASCII here, so the classes of characters below are those of ASCII.
-/

namespace Scaffold.Naming

/-- The case of the last letter of the word begun. -/
inductive Case
  | none
  | lower
  | upper
deriving DecidableEq, Repr

/-- The case after one more character. -/
def Case.after (case : Case) (c : Char) : Case :=
  if c.isLower then lower else if c.isUpper then upper else case

/-- Splits a run of letters and digits. `held` are the characters of the word begun,
in reverse, and `case` is the case of its last letter. -/
def splitRun (case : Case) (held : List Char) : List Char → List (List Char)
  | [] => if held.isEmpty then [] else [held.reverse]
  | [c] => [(c :: held).reverse]
  | c :: next :: rest =>
    if case.after c = .lower && next.isUpper then
      (c :: held).reverse :: splitRun .none [] (next :: rest)
    else if case = .upper && c.isUpper && next.isLower then
      held.reverse :: splitRun .none [c] (next :: rest)
    else splitRun (case.after c) (c :: held) (next :: rest)

/-- The words of an identifier. -/
def splitWords (identifier : List Char) : List (List Char) :=
  (identifier.splitOnP fun c => !c.isAlphanum).flatMap (splitRun .none [])

/-- A word in small letters. -/
def lowerWord (word : List Char) : List Char :=
  word.map Char.toLower

/-- A word in small letters, but for a capital in front. -/
def capitalWord : List Char → List Char
  | [] => []
  | c :: rest => c.toUpper :: lowerWord rest

end Scaffold.Naming
