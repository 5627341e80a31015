import Scaffold.Client
import Scaffold.Config
import Scaffold.Naming.Name

/-! # Context

What the parts of a generated tree share: the data model, the configuration, the
spellings of every name and the place of the database client. Two models may not
have the same spelling, nor may two enums, for their files would share a path; and
no model may take the directory of the enums. A model and an enum may well share a
name, since nothing of theirs shares a path.
-/

namespace Scaffold

open Document (Environment Options)
open Naming (Name)
open Schema

/-- The directory of the generated enums. -/
def enumDirectory : String := "enums"

/-- The spellings of the names given to one kind of declaration, in the order of
declaration. -/
abbrev NameTable := List Name

namespace NameTable

/-- The spellings of a name. -/
def find? (table : NameTable) (name : String) : Option Name :=
  List.find? (fun n => n.identifier = name) table

/-- The error of a name that gets in the way of an earlier one. -/
def clash? (declared : Declared) (earlier : NameTable) (name : Name) : Option Error :=
  if (earlier.find? name.identifier).isSome then
    some (.duplicateName declared (.repeated name.identifier))
  else
    match List.find? (fun n => n.pascal = name.pascal) earlier with
    | some first =>
      some (.duplicateName declared (.sameForm first.identifier name.identifier name.pascal))
    | none =>
      match List.find? (fun n => n.camel = name.camel) earlier with
      | some first =>
        some (.duplicateName declared (.sameForm first.identifier name.identifier name.camel))
      | none => none

/-- Adds names to a table, up to the first that has no spelling or clashes. -/
def extend (declared : Declared) (table : NameTable) : List String → Except Error NameTable
  | [] => .ok table
  | identifier :: rest => do
    let name ← Name.ofIdentifier identifier
    match table.clash? declared name with
    | some e => .error e
    | none => extend declared (table ++ [name]) rest

/-- The spellings of some names, none of which may clash with another. -/
def ofNames (declared : Declared) (names : List String) : Except Error NameTable :=
  extend declared [] names

end NameTable

/-- Everything that the parts of a generated tree share. -/
structure Context where
  config : Config
  datamodel : Datamodel
  modelNames : NameTable
  enumNames : NameTable
  clientPaths : Option ClientPaths

namespace Context

/-- The context of a data model, with the place of the client still open. -/
def ofDatamodel (d : Datamodel) (config : Config) : Except Error Context := do
  let modelNames ← NameTable.ofNames .model (d.models.map Model.name)
  let enumNames ← NameTable.ofNames .enumeration (d.enums.map Enumeration.name)
  match List.find? (fun n => n.camel = enumDirectory) modelNames with
  | some n =>
    .error (.duplicateName .directory (.sameForm n.identifier enumDirectory enumDirectory))
  | none =>
    return {
      config := config
      datamodel := d
      modelNames := modelNames
      enumNames := enumNames
      clientPaths := none }

/-- The context of a document. The place of the client is found first. -/
def ofOptions (options : Options) (config : Config) (env : Environment)
    (workingDirectory : Path) : Except Error Context := do
  let paths ← ClientPaths.resolve options env workingDirectory
  let context ← ofDatamodel options.datamodel config
  return { context with clientPaths := some paths }

/-- The module from which generated files import the client of the database. -/
def clientImportPath (c : Context) : Except Error String :=
  match c.clientPaths with
  | some paths => .ok paths.importPath
  | none =>
    .error (.missingConfig (.unset "database client import path (client paths not resolved)"))

end Context

/-- A model with its spellings, as the generated files of the model see it. -/
structure NamedModel where
  model : Model
  names : Name

namespace NamedModel

/-- A model of a context. -/
def ofModel (c : Context) (m : Model) : Except Error NamedModel :=
  match c.modelNames.find? m.name with
  | some names => .ok ⟨m, names⟩
  | none => .error (.internal (.namesMissing .model m.name))

def entityClass (m : NamedModel) : String := m.names.pascal ++ "Base"

def relationsClass (m : NamedModel) : String := m.names.pascal ++ "BaseRelations"

def withRelationsType (m : NamedModel) : String := m.names.pascal ++ "BaseWithRelations"

def keyType (m : NamedModel) : String := m.names.pascal ++ "Key"

def createDtoClass (m : NamedModel) : String := "Create" ++ m.names.pascal ++ "Dto"

def serviceClass (m : NamedModel) : String := m.names.pascal ++ "BaseService"

/-- The property of the database client that gives access to the model. Only the
first letter of the model's own name is changed. -/
def clientDelegate (m : NamedModel) : String :=
  match m.model.name.toList with
  | [] => ""
  | first :: rest => String.ofList (first.toLower :: rest)

/-- The directory of the files of the model. -/
def directory (m : NamedModel) : String := m.names.camel

def entityModule (m : NamedModel) : String := m.entityClass

def dtoModule (m : NamedModel) : String := "Create-" ++ m.names.pascal ++ ".dto"

def serviceModule (m : NamedModel) : String := m.names.camel ++ "Base.service"

def entityPath (m : NamedModel) : Path := ⟨m.directory ++ "/" ++ m.entityModule ++ ".ts"⟩

def dtoPath (m : NamedModel) : Path := ⟨m.directory ++ "/dtos/" ++ m.dtoModule ++ ".ts"⟩

def servicePath (m : NamedModel) : Path := ⟨m.directory ++ "/" ++ m.serviceModule ++ ".ts"⟩

def indexPath (m : NamedModel) : Path := ⟨m.directory ++ "/index.ts"⟩

/-- The fields that callers supply when they create a record. -/
def createFields (m : NamedModel) : List Field :=
  m.model.fields.filter fun f => !f.isRelation && !f.isSystemManaged

end NamedModel

end Scaffold
