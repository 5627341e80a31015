import Scaffold.Json.Value
import Scaffold.Text.Quoted

/-! # Tokens of a document

A document is a run of tokens with blanks between them. Three of the six modes of
the scanner below hold the characters of a token that has not ended yet; a
character then either joins that token or ends it. The scanner goes over the
characters once and keeps nothing else, so what a text means can be stated one
character at a time.

A string is taken between its quotes as it is written, and its escapes are
resolved once it has ended. The text of a token is written with the short escapes
where one exists and with four digits for the other controls.
-/

namespace Scaffold.Json

/-- A token of a document. -/
inductive Token
  | openArray
  | closeArray
  | openObject
  | closeObject
  | comma
  | colon
  | null
  | bool (b : Bool)
  | number (n : Number)
  | string (s : String)

/-- The value of a hexadecimal digit of either case. -/
def hexValue? (c : Char) : Option Nat :=
  if c.isDigit then some (c.toNat - '0'.toNat)
  else if 'a' ≤ c ∧ c ≤ 'f' then some (10 + (c.toNat - 'a'.toNat))
  else if 'A' ≤ c ∧ c ≤ 'F' then some (10 + (c.toNat - 'A'.toNat))
  else none

/-- The value of four hexadecimal digits. -/
def unit? (a b c d : Char) : Option Nat := do
  let a ← hexValue? a
  let b ← hexValue? b
  let c ← hexValue? c
  let d ← hexValue? d
  return ((a * 16 + b) * 16 + c) * 16 + d

/-- The character that a short escape names. -/
def shortEscape? (c : Char) : Option Char :=
  if c = '"' ∨ c = '\\' ∨ c = '/' then some c
  else if c = 'b' then some '\x08'
  else if c = 'f' then some '\x0c'
  else if c = 'n' then some '\n'
  else if c = 'r' then some '\r'
  else if c = 't' then some '\t'
  else none

/-- Resolves the escapes of a string onto the characters found so far, which are
in reverse. Two escapes that are halves of one character stand for it; a half on
its own is refused, and so is a control that is not escaped. -/
def unescape (found : List Char) : List Char → Option (List Char)
  | [] => some found.reverse
  | '\\' :: 'u' :: a :: b :: c :: d :: rest =>
    match unit? a b c d with
    | none => none
    | some high =>
      if 0xD800 ≤ high ∧ high < 0xDC00 then
        match rest with
        | '\\' :: 'u' :: e :: f :: g :: h :: rest =>
          match unit? e f g h with
          | none => none
          | some low =>
            if 0xDC00 ≤ low ∧ low < 0xE000 then
              let point := 0x10000 + (high - 0xD800) * 0x400 + (low - 0xDC00)
              unescape (Char.ofNat point :: found) rest
            else none
        | _ => none
      else if 0xDC00 ≤ high ∧ high < 0xE000 then none
      else unescape (Char.ofNat high :: found) rest
  | '\\' :: c :: rest =>
    match shortEscape? c with
    | none => none
    | some c => unescape (c :: found) rest
  | c :: rest => if c.toNat < 0x20 ∨ c = '\\' then none else unescape (c :: found) rest

/-- One character of a string as it is written. -/
def escapeChar (c : Char) : List Char :=
  if c = '"' then ['\\', '"']
  else if c = '\\' then ['\\', '\\']
  else if c = '\x08' then ['\\', 'b']
  else if c = '\x0c' then ['\\', 'f']
  else if c = '\n' then ['\\', 'n']
  else if c = '\r' then ['\\', 'r']
  else if c = '\t' then ['\\', 't']
  else if c.toNat < 0x20 then
    ['\\', 'u', '0', '0', Text.hexDigit (c.toNat / 16), Text.hexDigit (c.toNat % 16)]
  else [c]

/-- The token that a bare word stands for: a constant or a number. -/
def wordToken? (word : List Char) : Option Token :=
  if word = "null".toList then some .null
  else if word = "true".toList then some (.bool true)
  else if word = "false".toList then some (.bool false)
  else (Number.read? word).map .number

/-- The token that a single character stands for. -/
def mark? (c : Char) : Option Token :=
  if c = '[' then some .openArray
  else if c = ']' then some .closeArray
  else if c = '\x7b' then some .openObject
  else if c = '\x7d' then some .closeObject
  else if c = ',' then some .comma
  else if c = ':' then some .colon
  else none

/-- The blanks allowed between tokens. -/
def isGap (c : Char) : Bool :=
  c == ' ' || c == '\t' || c == '\n' || c == '\r'

/-- What the scanner is in the middle of. Characters are held in reverse. -/
inductive Mode
  | between
  | word (held : List Char)
  | string (held : List Char)
  /-- Inside a string, after a backslash. -/
  | escape (held : List Char)

/-- The scanner: its mode, and the tokens that have ended, in reverse. -/
structure Scanner where
  mode : Mode
  ended : List Token

/-- Takes a character that does not belong to a token already begun. -/
def Scanner.begin (ended : List Token) (c : Char) : Scanner :=
  match mark? c with
  | some token => ⟨.between, token :: ended⟩
  | none =>
    if isGap c then ⟨.between, ended⟩
    else if c = '"' then ⟨.string [], ended⟩
    else ⟨.word [c], ended⟩

/-- Whether a character ends a bare word. -/
def endsWord (c : Char) : Bool :=
  (mark? c).isSome || isGap c || c == '"'

/-- Takes one character. -/
def Scanner.step (s : Scanner) (c : Char) : Option Scanner :=
  match s.mode with
  | .between => some (begin s.ended c)
  | .word held =>
    if endsWord c then
      (wordToken? held.reverse).map fun token => begin (token :: s.ended) c
    else some ⟨.word (c :: held), s.ended⟩
  | .string held =>
    if c = '"' then
      (unescape [] held.reverse).map fun body =>
        ⟨.between, .string (String.ofList body) :: s.ended⟩
    else if c = '\\' then some ⟨.escape (c :: held), s.ended⟩
    else some ⟨.string (c :: held), s.ended⟩
  | .escape held => some ⟨.string (c :: held), s.ended⟩

/-- The tokens at the end of the text, where a bare word may end but no string. -/
def Scanner.finish (s : Scanner) : Option (List Token) :=
  match s.mode with
  | .between => some s.ended.reverse
  | .word held => (wordToken? held.reverse).map fun token => (token :: s.ended).reverse
  | .string _ | .escape _ => none

/-- The tokens of a text, if it consists of tokens and blanks. -/
def scan (text : List Char) : Option (List Token) :=
  (text.foldlM Scanner.step ⟨.between, []⟩).bind Scanner.finish

/-- The text of a token. -/
def Token.text : Token → String
  | .openArray => "["
  | .closeArray => "]"
  | .openObject => "\x7b"
  | .closeObject => "\x7d"
  | .comma => ","
  | .colon => ":"
  | .null => "null"
  | .bool true => "true"
  | .bool false => "false"
  | .number n => n.text
  | .string s => String.ofList ('"' :: s.toList.flatMap escapeChar ++ ['"'])

end Scaffold.Json
