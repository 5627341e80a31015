import Scaffold.Error
import Scaffold.Schema.Field

/-! # Enums, models and the data model

A model is a list of fields, and its keys and unique indexes list some of them by
name. The key that a model is addressed by comes from its compound key if it lists
any field, and else from the first field that identifies a record on its own. The
fields of a compound key of several fields stand in the order in which the model
declares them; only the selector of an unnamed one keeps the listed order.
-/

namespace Scaffold.Schema

/-- An enum with its values in order. -/
structure Enumeration where
  name : String
  values : List String
  dbName : Option String
  documentation : Option String
deriving DecidableEq, Repr

/-- A compound primary key: field names as listed, and a name for the selector. -/
structure PrimaryKey where
  name : Option String
  fields : List String
deriving DecidableEq, Repr

/-- A compound unique constraint. -/
structure UniqueIndex where
  name : Option String
  fields : List String
deriving DecidableEq, Repr

/-- A model of the data model. -/
structure Model where
  name : String
  dbName : Option String
  fields : List Field
  primaryKey : Option PrimaryKey
  uniqueIndexes : List UniqueIndex
  documentation : Option String

/-- What a record of a model is addressed by. -/
inductive Key
  | single (field : Field)
  /-- At least two names were listed; the selector is the name of the compound argument. -/
  | composite (selector : String) (fields : List Field)

/-- The fields of a key, in the order in which they are rendered. -/
def Key.fields : Key → List Field
  | single field => [field]
  | composite _ fields => fields

def Key.selector? : Key → Option String
  | single _ => none
  | composite selector _ => some selector

namespace Model

/-- A model with the given fields and nothing else. -/
def plain (name : String) (fields : List Field) : Model where
  name := name
  dbName := none
  fields := fields
  primaryKey := none
  uniqueIndexes := []
  documentation := none

def withPrimaryKey (m : Model) (key : PrimaryKey) : Model :=
  { m with primaryKey := some key }

/-- Adds an unnamed unique index behind the others. -/
def withUniqueIndex (m : Model) (fields : List String) : Model :=
  { m with uniqueIndexes := m.uniqueIndexes ++ [⟨none, fields⟩] }

/-- Adds an unnamed unique index unless one over the same list of fields is there. -/
def mergeUniqueIndex (indexes : List UniqueIndex) (fields : List String) : List UniqueIndex :=
  if indexes.any (fun index => index.fields = fields) then indexes
  else indexes ++ [⟨none, fields⟩]

/-- The first field with a given name. -/
def field? (m : Model) (name : String) : Option Field :=
  m.fields.find? (fun f => f.name = name)

/-- The field with a given name, or an error that names it and the model. -/
def requireField (m : Model) (name : String) : Except Error Field :=
  match m.field? name with
  | some f => .ok f
  | none => .error (.fieldNotFound m.name name)

/-- The first of some names that no field has. -/
def firstUnknown? (m : Model) (names : List String) : Option String :=
  names.find? (fun name => (m.field? name).isNone)

def relationFields (m : Model) : List Field :=
  m.fields.filter Field.isRelation

/-- The names that the compound key lists, if it lists any. -/
def listedKey? (m : Model) : Option PrimaryKey :=
  m.primaryKey.filter (fun key => !key.fields.isEmpty)

/-- The key of a model; none if nothing identifies a record. -/
def key (m : Model) : Except Error (Option Key) :=
  match m.listedKey? with
  | none => .ok ((m.fields.find? Field.isId).map .single)
  | some listed =>
    match m.firstUnknown? listed.fields with
    | some name => .error (.fieldNotFound m.name name)
    | none =>
      match listed.fields with
      | [name] => .ok ((m.field? name).map .single)
      | names =>
        let selector := listed.name.getD ("_".intercalate names)
        .ok (some (.composite selector (m.fields.filter fun f => names.contains f.name)))

end Model

/-- Every enum and every model, each in the order of declaration. -/
structure Datamodel where
  enums : List Enumeration
  models : List Model

namespace Datamodel

/-- The first model with a given name. -/
def model? (d : Datamodel) (name : String) : Option Model :=
  d.models.find? (fun m => m.name = name)

/-- The first enum with a given name. -/
def enum? (d : Datamodel) (name : String) : Option Enumeration :=
  d.enums.find? (fun e => e.name = name)

def isEmpty (d : Datamodel) : Bool :=
  d.enums.isEmpty && d.models.isEmpty

end Datamodel

end Scaffold.Schema
