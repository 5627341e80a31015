import Scaffold.Document.Options
import Scaffold.Text.Words

/-! # Configuration

Five settings decide what is generated and where it goes. They come from several
places, and a later one counts for more: the defaults, the free-form settings of
the document in ascending order of their keys, the output that the document gives
to this generator, and at last what the caller insists on.

A setting that is not known has no effect. A known one with a value it cannot take
is an error even where a later place would have replaced it.
-/

namespace Scaffold

open Json (Value)
open Document (Environment Options)

/-- What is generated, and where it goes. -/
structure Config where
  /-- The directory below which all files are written. -/
  outputDir : Path
  /-- Whether directories get an index file. -/
  makeIndexFile : Bool
  /-- Whether everything is computed and nothing written. -/
  dryRun : Bool
  /-- Whether relations stand in a class of their own. -/
  separateRelationFields : Bool
  /-- Whether properties carry an OpenAPI description. -/
  useSwagger : Bool
deriving DecidableEq, Repr

namespace Config

/-- The configuration where nothing is said. Nothing is written by default. -/
def standard : Config where
  outputDir := ⟨"./base"⟩
  makeIndexFile := true
  dryRun := true
  separateRelationFields := false
  useSwagger := true

/-- The truth value that a setting holds: itself, or its name in any case. -/
def truth? : Value → Option Bool
  | .bool b => some b
  | .string s =>
    if Text.lowerAscii s = "true" then some true
    else if Text.lowerAscii s = "false" then some false
    else none
  | _ => none

def truth (key : String) (value : Value) : Except Error Bool :=
  match truth? value with
  | some b => .ok b
  | none => .error (.invalidConfig (.notABoolean key value.text))

/-- The path that a setting holds: any text with a character that is not blank. -/
def path? : Value → Option Path
  | .string s => if Text.isBlankText s then none else some ⟨s⟩
  | _ => none

def path (key : String) (value : Value) : Except Error Path :=
  match path? value with
  | some p => .ok p
  | none => .error (.invalidConfig (.blankPath key value.text))

/-- Applies one setting of a document. -/
def set (c : Config) (key : String) (value : Value) : Except Error Config :=
  if key = "makeIndexFile" then
    (truth key value).map fun b => { c with makeIndexFile := b }
  else if key = "dryRun" then
    (truth key value).map fun b => { c with dryRun := b }
  else if key = "separateRelationFields" then
    (truth key value).map fun b => { c with separateRelationFields := b }
  else if key = "useSwagger" then
    (truth key value).map fun b => { c with useSwagger := b }
  else if key = "output" then
    (path key value).map fun p => { c with outputDir := p }
  else .ok c

/-- Applies settings one after another, up to the first that is refused. -/
def setAll (c : Config) : List (String × Value) → Except Error Config
  | [] => .ok c
  | (key, value) :: rest => do
    let c ← c.set key value
    c.setAll rest

/-- The configuration that a document asks for. -/
def ofOptions (options : Options) (env : Environment) : Except Error Config := do
  let c ← standard.setAll options.generator.config
  match options.generator.output with
  | none => return c
  | some output =>
    let dir ← output.resolve env "generator output"
    return { c with outputDir := ⟨dir⟩ }

end Config

/-- Settings that the caller insists on. -/
structure Overrides where
  outputDir : Option Path
  makeIndexFile : Option Bool
  dryRun : Option Bool
  separateRelationFields : Option Bool
  useSwagger : Option Bool
deriving DecidableEq, Repr

/-- A configuration with the settings that the caller insists on. -/
def Overrides.applyTo (o : Overrides) (c : Config) : Config where
  outputDir := o.outputDir.getD c.outputDir
  makeIndexFile := o.makeIndexFile.getD c.makeIndexFile
  dryRun := o.dryRun.getD c.dryRun
  separateRelationFields := o.separateRelationFields.getD c.separateRelationFields
  useSwagger := o.useSwagger.getD c.useSwagger

end Scaffold
