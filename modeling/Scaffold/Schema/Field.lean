import Scaffold.Json.Value
import Scaffold.Schema.Scalar
import Scaffold.Text.Words

/-! # Fields

A field holds a scalar, a value of an enum, records of another model or an embedded
object. Who supplies its value decides where the field shows up: one that the
storage layer maintains is system-managed and is never asked for, one with a
default may be left out.

Authors can mark a field as system-managed in its documentation. A marker is a
whole word; a word that only begins like one is not.
-/

namespace Scaffold.Schema

/-- Whether a field holds one value or a list of them. -/
inductive Cardinality
  | single
  | list
deriving DecidableEq, Repr

namespace Cardinality

/-- All cardinalities, in the order in which messages list them. -/
def all : List Cardinality := [.single, .list]

def name : Cardinality → String
  | single => "single"
  | list => "list"

def ofName? (name : String) : Option Cardinality :=
  all.find? (fun c => c.name = name)

end Cardinality

/-- A field's side of a relation between two models. -/
structure Relation where
  /-- The model that the field refers to. -/
  model : String
  /-- The name that both sides of the relation share. -/
  name : String
  /-- Fields of this model that hold the reference; empty on the side referred to. -/
  fromFields : List String
  /-- Fields of the other model that they refer to. -/
  toFields : List String
deriving DecidableEq, Repr

/-- Whether this side of a relation holds the reference. -/
def Relation.ownsForeignKey (r : Relation) : Bool :=
  !r.fromFields.isEmpty

/-- What a field holds. -/
inductive Kind
  | scalar (type : Scalar)
  | enumeration (name : String)
  | relation (relation : Relation)
  | object (name : String)
deriving DecidableEq, Repr

/-- The name of the type as the schema writes it. -/
def Kind.typeName : Kind → String
  | scalar type => type.name
  | enumeration name | object name => name
  | relation r => r.model

/-- The value that a field has when none is given. -/
inductive Default
  | function (name : String) (args : List Json.Value)
  | literal (value : Json.Value)

namespace Default

/-- The name of a default that is a function. -/
def functionName? : Default → Option String
  | function name _ => some name
  | literal _ => none

/-- The functions whose value the storage layer or its client makes up. -/
def generatorNames : List String :=
  ["autoincrement", "uuid", "cuid", "ulid", "nanoid", "dbgenerated", "sequence"]

def isNow (d : Default) : Bool :=
  d.functionName? == some "now"

def isAutoincrement (d : Default) : Bool :=
  d.functionName? == some "autoincrement"

def isGenerator (d : Default) : Bool :=
  d.functionName?.any (fun name => generatorNames.contains name)

end Default

/-- The markers that a documentation can carry. -/
inductive Marker
  | createdAt
  | updatedAt
  | readOnly
deriving DecidableEq, Repr

/-- Every word that starts like this is left out of rendered documentation. -/
def markerStart : String := "B$"

/-- The name of a marker behind its start. -/
def Marker.name : Marker → String
  | createdAt => "CreatedAt"
  | updatedAt => "UpdatedAt"
  | readOnly => "ReadOnly"

/-- The marker that a word is, if it is one. -/
def Marker.ofWord? (word : String) : Option Marker :=
  [createdAt, updatedAt, readOnly].find? (fun m => word = markerStart ++ m.name)

/-- The markers among the words of a documentation, in order and with repetitions. -/
def markersOf (documentation : Option String) : List Marker :=
  match documentation with
  | none => []
  | some text => (Text.words text).filterMap Marker.ofWord?

/-- A field of a model. -/
structure Field where
  name : String
  kind : Kind
  cardinality : Cardinality
  /-- Whether the field is never null. -/
  required : Bool
  unique : Bool
  /-- Whether the field alone identifies a record of its model. -/
  isId : Bool
  /-- Whether callers are kept from setting the field. -/
  readOnly : Bool
  /-- Whether the storage layer makes up the value. -/
  generated : Bool
  /-- Whether the field holds the time of the last change. -/
  updatedAt : Bool
  /-- Whether the schema declares a default, known or not. -/
  hasDefault : Bool
  defaultValue : Option Default
  documentation : Option String

namespace Field

/-- A required field with one value and nothing else said about it. -/
def plain (name : String) (kind : Kind) : Field where
  name := name
  kind := kind
  cardinality := .single
  required := true
  unique := false
  isId := false
  readOnly := false
  generated := false
  updatedAt := false
  hasDefault := false
  defaultValue := none
  documentation := none

def asOptional (f : Field) : Field := { f with required := false }

def asList (f : Field) : Field := { f with cardinality := .list }

def asId (f : Field) : Field := { f with isId := true }

def asUnique (f : Field) : Field := { f with unique := true }

def asUpdatedAt (f : Field) : Field := { f with updatedAt := true }

def asReadOnly (f : Field) : Field := { f with readOnly := true }

def withDefault (f : Field) (d : Default) : Field :=
  { f with hasDefault := true, defaultValue := some d }

def withDocumentation (f : Field) (text : String) : Field :=
  { f with documentation := some text }

def isList (f : Field) : Bool :=
  f.cardinality = .list

/-- The field's side of a relation, if it is one. -/
def relation? (f : Field) : Option Relation :=
  match f.kind with
  | .relation r => some r
  | _ => none

def isRelation (f : Field) : Bool :=
  f.relation?.isSome

def markers (f : Field) : List Marker :=
  markersOf f.documentation

def hasMarker (f : Field) (m : Marker) : Bool :=
  f.markers.contains m

/-- Holds of the time of creation: marked as such, or a time whose default is now. -/
def isCreatedAt (f : Field) : Bool :=
  f.hasMarker .createdAt || (f.kind = .scalar .dateTime && f.defaultValue.any Default.isNow)

/-- Holds of the time of the last change. -/
def isUpdatedAt (f : Field) : Bool :=
  f.updatedAt || f.hasMarker .updatedAt

/-- Holds of a field that callers are kept from setting. -/
def isReadOnly (f : Field) : Bool :=
  f.readOnly || f.hasMarker .readOnly

/-- Holds of a field whose value is made up when a record is created. A generator
other than a counter only counts on the identifying field; elsewhere a caller may
still supply the value. -/
def isAutoGenerated (f : Field) : Bool :=
  f.generated || f.defaultValue.any fun d => d.isAutoincrement || (f.isId && d.isGenerator)

/-- Holds of a field that callers never supply. -/
def isSystemManaged (f : Field) : Bool :=
  f.isCreatedAt || f.isUpdatedAt || f.isReadOnly || f.isAutoGenerated

/-- Whether callers may leave the field out although it is never null. -/
def hasInputDefault (f : Field) : Bool :=
  f.hasDefault || f.defaultValue.isSome

end Field

end Scaffold.Schema
