import Scaffold.Document.Record
import Scaffold.Schema.Model

/-! # The data model in a document

The columns of the records that make up a data model, and the checks that a record
passes after all its columns were accepted: an enum has a value, the type of a
scalar field is known, and a field has one of three kinds. A field of kind object
is a relation if the relation has a name, and an embedded object otherwise.
-/

namespace Scaffold.Document

open Json (Value)
open Schema

/-- A default as a document writes it: an object with the name of a function, or
any other value for itself. -/
def defaultOf (v : Value) : Default :=
  match (v.get? "name").bind Value.string? with
  | some name =>
    match v.get? "args" with
    | some (.array args) => .function name args
    | _ => .function name []
  | none => .literal v

/-- The columns of a field. -/
structure FieldRow where
  name : String
  kind : String
  type : String
  isList : Bool
  isRequired : Bool
  isUnique : Bool
  isId : Bool
  isGenerated : Bool
  isUpdatedAt : Bool
  hasDefaultValue : Bool
  defaultValue : Option Value
  documentation : Option String
  relationName : Option String
  relationFromFields : List String
  relationToFields : List String

def fieldColumns : Columns FieldRow :=
  FieldRow.mk <$> required "name" string
    <*> required "kind" string
    <*> required "type" string
    <*> defaulted "isList" boolean false
    <*> defaulted "isRequired" boolean false
    <*> defaulted "isUnique" boolean false
    <*> defaulted "isId" boolean false
    <*> defaulted "isGenerated" boolean false
    <*> defaulted "isUpdatedAt" boolean false
    <*> defaulted "hasDefaultValue" boolean false
    <*> optional "default" anything
    <*> optional "documentation" string
    <*> optional "relationName" string
    <*> defaulted "relationFromFields" (list string) []
    <*> defaulted "relationToFields" (list string) []

/-- What the field of a row holds. -/
def FieldRow.kind? (row : FieldRow) : Except SchemaDefect Kind :=
  if row.kind = "scalar" then
    match Scalar.ofName? row.type with
    | some type => .ok (.scalar type)
    | none => .error (.unknownScalar row.name row.type)
  else if row.kind = "enum" then .ok (.enumeration row.type)
  else if row.kind = "object" then
    match row.relationName with
    | some name =>
      .ok (.relation ⟨row.type, name, row.relationFromFields, row.relationToFields⟩)
    | none => .ok (.object row.type)
  else .error (.unknownKind row.name row.kind)

/-- The field of a row that holds something of the given kind. -/
def FieldRow.field (row : FieldRow) (kind : Kind) : Field where
  name := row.name
  kind := kind
  cardinality := if row.isList then .list else .single
  required := row.isRequired
  unique := row.isUnique
  isId := row.isId
  readOnly := false
  generated := row.isGenerated
  updatedAt := row.isUpdatedAt
  hasDefault := row.hasDefaultValue || row.defaultValue.isSome
  defaultValue := row.defaultValue.map defaultOf
  documentation := row.documentation

def readField : Reader Field := fun v => do
  let row ← record "RawField" fieldColumns v
  let kind ← row.kind?.mapError .defect
  return row.field kind

/-- A value of an enum: its name, or an object with its name. -/
def readEnumValue : Reader String
  | .string name => .ok name
  | .object members =>
    match (Value.object members).get? "name" with
    | some (.string name) => .ok name
    | _ => .error (.noVariant "RawEnumValue")
  | _ => .error (.noVariant "RawEnumValue")

def enumColumns : Columns Enumeration :=
  Enumeration.mk <$> required "name" string
    <*> defaulted "values" (list readEnumValue) []
    <*> optional "dbName" string
    <*> optional "documentation" string

def readEnum : Reader Enumeration := fun v => do
  let e ← record "RawEnum" enumColumns v
  if e.values.isEmpty then .error (.defect (.noValues e.name)) else .ok e

def readPrimaryKey : Reader PrimaryKey :=
  record "PrimaryKey"
    (PrimaryKey.mk <$> optional "name" string <*> required "fields" (list string))

def readUniqueIndex : Reader UniqueIndex :=
  record "UniqueIndex"
    (UniqueIndex.mk <$> optional "name" string <*> required "fields" (list string))

/-- The columns of a model. Unique constraints come as indexes, as bare lists of
field names, or as both. -/
structure ModelRow where
  name : String
  dbName : Option String
  fields : List Field
  primaryKey : Option PrimaryKey
  uniqueIndexes : List UniqueIndex
  uniqueFields : List (List String)
  documentation : Option String

def modelColumns : Columns ModelRow :=
  ModelRow.mk <$> required "name" string
    <*> optional "dbName" string
    <*> required "fields" (list readField)
    <*> optional "primaryKey" readPrimaryKey
    <*> defaulted "uniqueIndexes" (list readUniqueIndex) []
    <*> defaulted "uniqueFields" (list (list string)) []
    <*> optional "documentation" string

/-- The model of a row. A bare list of names is a unique index of its own unless
one over the same list is there. -/
def ModelRow.model (row : ModelRow) : Model where
  name := row.name
  dbName := row.dbName
  fields := row.fields
  primaryKey := row.primaryKey
  uniqueIndexes := row.uniqueFields.foldl Model.mergeUniqueIndex row.uniqueIndexes
  documentation := row.documentation

def readModel : Reader Model := fun v =>
  (record "RawModel" modelColumns v).map ModelRow.model

def readDatamodel : Reader Datamodel :=
  record "Datamodel"
    (Datamodel.mk <$> defaulted "enums" (list readEnum) []
      <*> defaulted "models" (list readModel) [])

end Scaffold.Document
