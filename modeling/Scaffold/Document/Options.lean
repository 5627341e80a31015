import Scaffold.Document.Datamodel
import Scaffold.Json.Document
import Scaffold.Path.Basic

/-! # Documents

A document carries a data model, alone or together with what the author of the
schema says about its generators: where the schema file is, how this generator is
configured, and which others there are. The client of the database is made by one
of those others, so its location can be found out from them.

Which of the two forms a document has is decided by its keys alone, before anything
in it is read.
-/

namespace Scaffold.Document

open Json (Value)
open Schema

/-- The variables of an environment. -/
abbrev Environment := String → Option String

/-- The environment of a process that was started with some settings. It is a list of
texts with a name, an equals sign and a value each, and a look-up takes what stands
behind the name and an equals sign in the first text that begins with them. A name
that itself holds an equals sign therefore reaches into a value. -/
def Environment.ofSettings (settings : List (String × String)) : Environment := fun name =>
  let start := name.toList ++ ['=']
  settings.findSome? fun setting =>
    let text := setting.1.toList ++ '=' :: setting.2.toList
    if start.isPrefixOf text then some (String.ofList (text.drop start.length)) else none

/-- A text that a document gives or leaves to a variable of the environment. -/
structure EnvValue where
  value : Option String
  fromEnvVar : Option String
deriving DecidableEq, Repr

/-- The text itself. A variable counts for more than a value beside it, and one that
is not set is an error even then. -/
def EnvValue.resolve (e : EnvValue) (env : Environment) (what : String) : Except Error String :=
  match e.fromEnvVar with
  | some name =>
    match env name with
    | some text => .ok text
    | none => .error (.missingConfig (.unsetVariable what name))
  | none =>
    match e.value with
    | some text => .ok text
    | none => .error (.missingConfig (.unset what))

/-- A text that an object holds under a key or leaves out. -/
def optionalText? (members : List (String × Value)) (key : String) : Option (Option String) :=
  match members.lookup key with
  | none | some .null => some none
  | some (.string s) => some (some s)
  | some _ => none

def readEnvValue : Reader EnvValue
  | .string s => .ok ⟨some s, none⟩
  | .object members =>
    match optionalText? members "value", optionalText? members "fromEnvVar" with
    | some value, some fromEnvVar => .ok ⟨value, fromEnvVar⟩
    | _, _ => .error (.noVariant "RawEnvValue")
  | _ => .error (.noVariant "RawEnvValue")

/-- What a schema says about one generator. -/
structure Generator where
  name : Option String
  provider : Option EnvValue
  output : Option EnvValue
  /-- Settings in ascending order of their keys. -/
  config : List (String × Value)

/-- A generator that nothing is said about. -/
def Generator.unspecified : Generator :=
  ⟨none, none, none, []⟩

/-- The provider that makes the client of the database. -/
def clientProvider : String := "prisma-client-js"

/-- Whether a generator makes the client of the database. Only a provider that is
given by name is recognised. -/
def Generator.makesClient (g : Generator) : Bool :=
  (g.provider.bind EnvValue.value) == some clientProvider

def readGenerator : Reader Generator :=
  record "GeneratorInfo"
    (Generator.mk <$> optional "name" string
      <*> optional "provider" readEnvValue
      <*> optional "output" readEnvValue
      <*> defaulted "config" map [])

/-- Everything a document hands over. -/
structure Options where
  schemaPath : Option Path
  generator : Generator
  otherGenerators : List Generator
  datamodel : Datamodel

namespace Options

/-- A data model of which nothing else is known. -/
def ofDatamodel (d : Datamodel) : Options :=
  ⟨none, .unspecified, [], d⟩

/-- The first generator that makes the client of the database. -/
def clientGenerator? (o : Options) : Option Generator :=
  o.otherGenerators.find? Generator.makesClient

end Options

/-- The record around a data model. -/
def readWrapped (name : String) : Reader Datamodel :=
  record name (required "datamodel" readDatamodel)

def readOptions : Reader Options :=
  record "GeneratorOptions"
    (Options.mk <$> ((fun path => path.map Path.mk) <$> optional "schemaPath" pathText)
      <*> defaulted "generator" readGenerator .unspecified
      <*> defaulted "otherGenerators" (list readGenerator) []
      <*> required "dmmf" (readWrapped "Dmmf"))

namespace Options

/-- The options that a value of a document stands for. -/
def ofValue (v : Value) : Except Error Options :=
  match v with
  | .object members =>
    if (members.lookup "dmmf").isSome then
      (readOptions v).mapError fun fault => .document (.shape fault)
    else if (members.lookup "datamodel").isSome then
      (readWrapped "BareDmmf" v).map ofDatamodel |>.mapError fun fault => .document (.shape fault)
    else .error (.invalidSchema .noDatamodel)
  | _ => .error (.invalidSchema .notAnObject)

/-- The options that a text stands for. -/
def ofText (text : String) : Except Error Options :=
  match Value.read? Json.nestingLimit text with
  | none => .error (.document .malformed)
  | some v => ofValue v

/-- The options in a file of which the path and the text are known. A fault of the
document is then a fault of the file; a document of neither form stays what it is. -/
def ofFile (path : Path) (text : String) : Except Error Options :=
  (ofText text).mapError fun
    | .document fault => .fileRead path.text (.document fault)
    | e => e

end Options

end Scaffold.Document
