import Scaffold.Error
import Scaffold.Json.Value

/-! # Records in a document

A record stands in a document as an object, or as an array of its columns in the
order of their declaration. A column reads its value and either has a value of its
own for the case that it is absent or is required.

A record can be wrong in several places, and exactly one of them is reported. A
value that its column refuses comes before a column that is absent. Of several
refused values the first one in the document is reported, which in an object is the
one with the least key; of several absent columns, the one declared first. For that
reason the columns of a record are not read one after another but side by side:
each of them adds what is wrong with it, and the choice is made at the end.
-/

namespace Scaffold.Document

open Json (Value)

/-- What a message says of a value of another type than the wanted one. -/
def found : Value → Found
  | .null => .null
  | .bool b => .bool b
  | .number (.whole n) => .whole n
  | .number (.real x) => .real x
  | .string s => .string s
  | .array _ => .sequence
  | .object _ => .map

/-- A reader of one value. -/
abbrev Reader (α : Type) := Value → Except ShapeFault α

def refuse (wanted : String) (v : Value) : Except ShapeFault α :=
  .error (.wrongType (found v) wanted)

def anything : Reader Value :=
  .ok

def boolean : Reader Bool
  | .bool b => .ok b
  | v => refuse "a boolean" v

def string : Reader String
  | .string s => .ok s
  | v => refuse "a string" v

/-- Reads a text that names a path. -/
def pathText : Reader String
  | .string s => .ok s
  | v => refuse "path string" v

/-- Reads every item of an array, up to the first that is refused. -/
def list (item : Reader α) : Reader (List α)
  | .array items => items.mapM item
  | v => refuse "a sequence" v

/-- Reads an object with arbitrary keys. -/
def map : Reader (List (String × Value))
  | .object members => .ok members
  | v => refuse "a map" v

/-- Reads null as the absence of a value. -/
def nullable (item : Reader α) : Reader (Option α)
  | .null => .ok none
  | v => (item v).map some

/-- Reads one of a list of named alternatives: its name, or an object whose only key
is its name. -/
def variant (names : List String) (ofName? : String → Option α) : Reader α
  | .string name => named name
  | .object [(name, held)] => do
    let alternative ← named name
    match held with
    | .null => return alternative
    | v => refuse "unit" v
  | .object _ => .error .notOneKey
  | v => refuse "string or map" v
where
  named (name : String) : Except ShapeFault α :=
    match ofName? name with
    | some alternative => .ok alternative
    | none => .error (.unknownVariant name names)

/-- A record as it stands in a document. -/
inductive Row
  | object (members : List (String × Value))
  | array (elements : List Value)

/-- The value of a column, if it is there. -/
def Row.cell? : Row → String → Nat → Option Value
  | object members, key, _ => members.lookup key
  | array elements, _, position => elements[position]?

/-- What is wrong with one column: it is absent, or its value is refused. -/
structure Problem where
  key : String
  position : Nat
  fault : Option ShapeFault

/-- What is wrong with a record: at least one column, in the order of declaration. -/
structure Problems where
  first : Problem
  rest : List Problem

def Problems.toList (p : Problems) : List Problem :=
  p.first :: p.rest

def Problems.append (p q : Problems) : Problems :=
  ⟨p.first, p.rest ++ q.toList⟩

/-- Columns that stand side by side, and what is made of their values. -/
structure Columns (α : Type) where
  width : Nat
  /-- Reads the columns from a position on. -/
  read : Row → Nat → Except Problems α

namespace Columns

/-- No column. -/
def none (a : α) : Columns α :=
  ⟨0, fun _ _ => .ok a⟩

/-- Some columns and further ones behind them. Both are read whatever the others hold. -/
def beside (f : Columns (α → β)) (x : Columns α) : Columns β where
  width := f.width + x.width
  read row position :=
    match f.read row position, x.read row (position + f.width) with
    | .ok g, .ok a => .ok (g a)
    | .error p, .ok _ => .error p
    | .ok _, .error q => .error q
    | .error p, .error q => .error (p.append q)

instance : Applicative Columns where
  pure := none
  seq f x := beside f (x ())

/-- One column with what it is when absent, if it may be. -/
def one (key : String) (reader : Reader α) (absent : Option α) : Columns α where
  width := 1
  read row position :=
    match row.cell? key position with
    | some v => (reader v).mapError fun fault => ⟨⟨key, position, some fault⟩, []⟩
    | Option.none =>
      match absent with
      | some a => .ok a
      | Option.none => .error ⟨⟨key, position, Option.none⟩, []⟩

end Columns

/-- A column that has to be there. -/
def required (key : String) (reader : Reader α) : Columns α :=
  .one key reader none

/-- A column with a value for the case that it is absent. Null is no absence. -/
def defaulted (key : String) (reader : Reader α) (absent : α) : Columns α :=
  .one key reader (some absent)

/-- A column that may be absent or null. -/
def optional (key : String) (reader : Reader α) : Columns (Option α) :=
  .one key (nullable reader) (some none)

/-- The fault of the column with a given key, if its value is refused. -/
def Problems.faultAt? (p : Problems) (key : String) : Option ShapeFault :=
  (p.toList.find? fun problem => problem.key = key).bind Problem.fault

/-- The first refused value in the order of the document. -/
def Problems.firstFault? (p : Problems) : Row → Option ShapeFault
  | .object members => members.findSome? fun member => p.faultAt? member.1
  | .array _ => p.toList.findSome? Problem.fault

/-- The fault to report for a record with something wrong in it. -/
def Problems.report (record : String) (width : Nat) (row : Row) (p : Problems) : ShapeFault :=
  match p.firstFault? row, row with
  | some fault, _ => fault
  | none, .object _ => .missing p.first.key
  | none, .array _ => .tooShort p.first.position record width

/-- Reads a record of a given name. -/
def record (name : String) (columns : Columns α) : Reader α
  | .object members =>
    let row := .object members
    (columns.read row 0).mapError fun p => p.report name columns.width row
  | .array elements => do
    let row := .array elements
    let a ← (columns.read row 0).mapError fun p => p.report name columns.width row
    if columns.width < elements.length then .error (.tooLong elements.length) else .ok a
  | v => refuse ("struct " ++ name) v

end Scaffold.Document
