import Scaffold.Artifact.Basic

/-! # Output

What a run hands over: the generated files with their texts, and warnings about
what was generated. A file is found by its place, and places are compared as lists
of components, so that it does not matter how a path was spelled.
-/

namespace Scaffold

open Artifact (Role)
open Schema

/-- A file to write. -/
structure GeneratedFile where
  /-- The place below the output directory. -/
  path : Path
  content : String
  role : Role
deriving DecidableEq, Repr

/-- The text on top of every generated file. -/
def banner : String :=
  "/**\n * This file was generated by nestbase. Do not edit it by hand:\n" ++
    " * changes will be overwritten the next time the generator runs.\n */"

namespace GeneratedFile

/-- The file with the banner on top. -/
def withBanner (f : GeneratedFile) : GeneratedFile :=
  { f with content := banner ++ "\n\n" ++ f.content }

def ofArtifact (a : Artifact) : GeneratedFile :=
  ⟨a.path, a.body.text, a.body.role⟩

end GeneratedFile

/-- What an author may want to know about a generated tree. -/
inductive Warning
  | nothingDeclared
  /-- Nothing identifies a record of a model. -/
  | noKey (model : String)
  | note (text : String)
deriving DecidableEq, Repr

def Warning.message : Warning → String
  | nothingDeclared => "The data model declares no enums or models; nothing was generated."
  | noKey model =>
    "Model '" ++ model ++ "' has no primary key; its service only provides create and findMany."
  | note text => text

/-- The files and warnings of a run, in order. -/
structure Output where
  files : List GeneratedFile
  warnings : List Warning
deriving DecidableEq, Repr

namespace Output

def empty : Output := ⟨[], []⟩

def addFile (o : Output) (f : GeneratedFile) : Output :=
  { o with files := o.files ++ [f] }

def addWarning (o : Output) (w : Warning) : Output :=
  { o with warnings := o.warnings ++ [w] }

def hasWarnings (o : Output) : Bool :=
  !o.warnings.isEmpty

def filesOf (o : Output) (role : Role) : List GeneratedFile :=
  o.files.filter fun f => f.role = role

/-- The first file at a place, given with slashes between its components. -/
def file? (o : Output) (place : String) : Option GeneratedFile :=
  o.files.find? fun f => f.path.display = place

/-- The size of all texts together. -/
def totalBytes (o : Output) : Nat :=
  o.files.foldl (fun total f => total + f.content.utf8ByteSize) 0

end Output

/-- The warnings about a data model. -/
def warningsOf (d : Datamodel) : Except Error (List Warning) := do
  let keys ← d.models.mapM fun m => m.key.map fun key => (m, key)
  let keyless := keys.filterMap fun (m, key) =>
    if key.isNone then some (Warning.noKey m.name) else none
  return (if d.isEmpty then [.nothingDeclared] else []) ++ keyless

/-- Generates the files of a document. The data model is checked first, then the
place of the database client is found, then the names are spelled; only then is a
file made. -/
def generate (options : Document.Options) (config : Config) (env : Document.Environment)
    (workingDirectory : Path) : Except Error Output := do
  options.datamodel.validate
  let context ← Context.ofOptions options config env workingDirectory
  let artifacts ← Artifact.project context
  let warnings ← warningsOf options.datamodel
  return ⟨artifacts.map fun a => (GeneratedFile.ofArtifact a).withBanner, warnings⟩

end Scaffold
