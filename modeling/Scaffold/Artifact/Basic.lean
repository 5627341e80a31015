import Scaffold.Artifact.CreateDto
import Scaffold.Artifact.Entity
import Scaffold.Artifact.Service

/-! # Artifacts

The files of a generated tree, each with its place below the output directory. An
artifact keeps its parts; the text is made from them at the end, so that two
artifacts can be compared part by part.
-/

namespace Scaffold.Artifact

open Naming (Name)
open Schema
open TypeScript

/-- What a generated file is. -/
inductive Role
  | enumeration
  | entity
  | createDto
  | service
  | index
deriving DecidableEq, Repr

namespace Role

/-- All roles. -/
def all : List Role := [.enumeration, .entity, .createDto, .service, .index]

def label : Role → String
  | enumeration => "enum"
  | entity => "entity"
  | createDto => "create-dto"
  | service => "service"
  | index => "index"

end Role

/-- The file of an enum. -/
structure EnumFile where
  documentation : Option String
  name : String
  values : List String
deriving DecidableEq, Repr

def EnumFile.text (e : EnumFile) : String :=
  commentAbove e.documentation "" ++ "export enum " ++ e.name ++ " \x7b\n" ++
    String.join (e.values.map fun value =>
      indentUnit ++ value ++ " = \"" ++ value ++ "\",\n") ++
    "\x7d\n"

/-- The file that passes on what the modules of a directory export. -/
structure Index where
  /-- The modules, relative to the directory. -/
  modules : List String
deriving DecidableEq, Repr

def Index.text (i : Index) : String :=
  String.join ((Text.ascending i.modules).map fun module =>
    "export * from \"./" ++ module ++ "\";\n")

/-- What a file holds. -/
inductive Body
  | enumeration (file : EnumFile)
  | entity (file : Entity)
  | createDto (file : CreateDto)
  | service (file : Service)
  | index (file : Index)
deriving DecidableEq, Repr

def Body.role : Body → Role
  | enumeration _ => .enumeration
  | entity _ => .entity
  | createDto _ => .createDto
  | service _ => .service
  | index _ => .index

def Body.text : Body → String
  | enumeration file => file.text
  | entity file => file.text
  | createDto file => file.text
  | service file => file.text
  | index file => file.text

end Artifact

/-- A file of a generated tree. -/
structure Artifact where
  /-- The place below the output directory. -/
  path : Path
  body : Artifact.Body
deriving DecidableEq, Repr

namespace Artifact

open Naming (Name)
open Schema

/-- The names of an enum of a context. -/
def enumName (c : Context) (e : Enumeration) : Except Error Name :=
  match c.enumNames.find? e.name with
  | some names => .ok names
  | none => .error (.internal (.namesMissing .enumeration e.name))

/-- The file of an enum with given names. -/
def ofEnum (e : Enumeration) (names : Name) : Artifact where
  path := ⟨enumDirectory ++ "/" ++ names.pascal ++ ".ts"⟩
  body := .enumeration ⟨e.documentation, names.pascal, e.values⟩

/-- The files of all enums, in the order of declaration. -/
def enums (c : Context) : Except Error (List Artifact) :=
  c.datamodel.enums.mapM fun e => (enumName c e).map (ofEnum e)

/-- The index of the enums. -/
def enumIndex (c : Context) : Except Error Artifact := do
  let names ← c.datamodel.enums.mapM (enumName c)
  return ⟨⟨enumDirectory ++ "/index.ts"⟩, .index ⟨names.map Name.pascal⟩⟩

def entity (c : Context) (m : NamedModel) : Except Error Artifact :=
  (Entity.ofModel c m).map fun file => ⟨m.entityPath, .entity file⟩

def createDto (c : Context) (m : NamedModel) : Except Error Artifact :=
  (CreateDto.ofModel c m).map fun file => ⟨m.dtoPath, .createDto file⟩

def service (c : Context) (m : NamedModel) : Except Error Artifact :=
  (Service.ofModel c m).map fun file => ⟨m.servicePath, .service file⟩

/-- The index of the files of a model. -/
def modelIndex (m : NamedModel) : Artifact where
  path := m.indexPath
  body := .index ⟨[m.entityModule, m.serviceModule, "dtos/" ++ m.dtoModule]⟩

/-- The files of a model. -/
def ofModel (c : Context) (m : NamedModel) : Except Error (List Artifact) := do
  let entity ← entity c m
  let dto ← createDto c m
  let service ← service c m
  return [entity, dto, service] ++ if c.config.makeIndexFile then [modelIndex m] else []

/-- All files of a context: the enums, then model by model, then the index of the
enums if there is one. -/
def project (c : Context) : Except Error (List Artifact) := do
  let enumFiles ← enums c
  let models ← c.datamodel.models.mapM (NamedModel.ofModel c)
  let modelFiles ← models.mapM (ofModel c)
  let files := enumFiles ++ modelFiles.flatten
  if c.config.makeIndexFile && !c.datamodel.enums.isEmpty then
    let index ← enumIndex c
    return files ++ [index]
  else return files

end Artifact

end Scaffold
