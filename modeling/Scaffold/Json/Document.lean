import Scaffold.Json.Token

/-! # Documents

The tokens of a value, and back. Writing puts the tokens of a value one after
another without blanks. Reading goes over the tokens once with a stack of the
containers that are open, innermost first; a value that has ended is delivered to
the innermost of them. A limit on the number of open containers keeps a hostile
document from nesting without end.
-/

namespace Scaffold.Json

mutual

/-- The tokens of a value. -/
def Value.tokens : Value → List Token
  | .null => [.null]
  | .bool b => [.bool b]
  | .number n => [.number n]
  | .string s => [.string s]
  | .array [] => [.openArray, .closeArray]
  | .array (item :: rest) => .openArray :: item.tokens ++ restTokens rest
  | .object [] => [.openObject, .closeObject]
  | .object ((key, value) :: rest) =>
    .openObject :: .string key :: .colon :: value.tokens ++ restMemberTokens rest

/-- The tokens of the items after the first, and of the end of the array. -/
def restTokens : List Value → List Token
  | [] => [.closeArray]
  | item :: rest => .comma :: item.tokens ++ restTokens rest

/-- The tokens of the members after the first, and of the end of the object. -/
def restMemberTokens : List (String × Value) → List Token
  | [] => [.closeObject]
  | (key, value) :: rest =>
    .comma :: .string key :: .colon :: value.tokens ++ restMemberTokens rest

end

/-- A value as a text without blanks. -/
def Value.text (v : Value) : String :=
  String.join (v.tokens.map Token.text)

/-- An open container, up to the place where a value is due. -/
inductive Frame
  /-- The items so far, in reverse. -/
  | array (items : List Value)
  /-- The members so far, and the key of the value that is due. -/
  | object (members : List (String × Value)) (key : String)

/-- What may come next, and the containers open around it. -/
inductive Reading
  | value (outer : List Frame)
  | itemOrClose (outer : List Frame)
  | afterItem (items : List Value) (outer : List Frame)
  | keyOrClose (outer : List Frame)
  | key (members : List (String × Value)) (outer : List Frame)
  | colon (members : List (String × Value)) (key : String) (outer : List Frame)
  | afterMember (members : List (String × Value)) (outer : List Frame)
  | complete (v : Value)

/-- Delivers a value to the innermost open container. -/
def Reading.deliver (v : Value) : List Frame → Reading
  | [] => .complete v
  | .array items :: outer => .afterItem (v :: items) outer
  | .object members name :: outer => .afterMember (setMember name v members) outer

/-- Takes the first token of a value. -/
def Reading.open? (limit : Nat) (outer : List Frame) : Token → Option Reading
  | .null => some (deliver .null outer)
  | .bool b => some (deliver (.bool b) outer)
  | .number n => some (deliver (.number n) outer)
  | .string s => some (deliver (.string s) outer)
  | .openArray => if outer.length < limit then some (.itemOrClose outer) else none
  | .openObject => if outer.length < limit then some (.keyOrClose outer) else none
  | _ => none

/-- Takes one token. -/
def Reading.step (limit : Nat) : Reading → Token → Option Reading
  | .value outer, token => open? limit outer token
  | .itemOrClose outer, .closeArray => some (deliver (.array []) outer)
  | .itemOrClose outer, token => open? limit (.array [] :: outer) token
  | .afterItem items outer, .comma => some (.value (.array items :: outer))
  | .afterItem items outer, .closeArray => some (deliver (.array items.reverse) outer)
  | .keyOrClose outer, .closeObject => some (deliver (.object []) outer)
  | .keyOrClose outer, .string name => some (.colon [] name outer)
  | .key members outer, .string name => some (.colon members name outer)
  | .colon members name outer, .colon => some (.value (.object members name :: outer))
  | .afterMember members outer, .comma => some (.key members outer)
  | .afterMember members outer, .closeObject => some (deliver (.object members) outer)
  | _, _ => none

/-- The value read, if nothing is open any more. -/
def Reading.complete? : Reading → Option Value
  | .complete v => some v
  | _ => none

/-- Reads a text that has to be one value from end to end, with at most `limit`
containers open at a time. -/
def Value.read? (limit : Nat) (text : String) : Option Value := do
  let tokens ← scan text.toList
  let final ← tokens.foldlM (Reading.step limit) (.value [])
  final.complete?

/-- A document may have this many containers open at a time. -/
def nestingLimit : Nat := 127

end Scaffold.Json
