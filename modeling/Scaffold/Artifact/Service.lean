import Scaffold.Artifact.FieldType

/-! # Services

The service of a model hands requests on to the client of the database. Records can
always be created and listed; finding, changing and removing a single one needs a
key to address it by.
-/

namespace Scaffold.Artifact

open Schema
open TypeScript

/-- The file of a service. -/
structure Service where
  imports : Imports
  className : String
  methods : List Method
deriving DecidableEq, Repr

def Service.text (s : Service) : String :=
  s.imports.render ++ "\n@Injectable()\nexport class " ++ s.className ++ " \x7b\n" ++
    indentUnit ++ "constructor(protected readonly prisma: PrismaClient) \x7b\x7d\n\n" ++
    "\n".intercalate (s.methods.map Method.text) ++ "\x7d\n"

/-- How the client of the database is told which record is meant. -/
def keyArgument : Key → String
  | .single _ => "key"
  | .composite selector _ => "\x7b " ++ selector ++ ": key \x7d"

namespace Service

/-- A method of the client's property for a model. -/
def callee (m : NamedModel) (method : String) : String :=
  "this.prisma." ++ m.clientDelegate ++ "." ++ method

def create (m : NamedModel) : Method where
  name := "create"
  parameters := [⟨"data", m.createDtoClass, none⟩]
  result := m.entityClass
  callee := callee m "create"
  argument := "\x7b data \x7d"

def findMany (m : NamedModel) : Method where
  name := "findMany"
  parameters := [⟨"params", "\x7b skip?: number; take?: number \x7d", some "\x7b\x7d"⟩]
  result := m.entityClass ++ "[]"
  callee := callee m "findMany"
  argument := "params"

def findOne (m : NamedModel) (key : Key) : Method where
  name := "findOne"
  parameters := [⟨"key", m.keyType, none⟩]
  result := m.entityClass ++ " | null"
  callee := callee m "findUnique"
  argument := "\x7b where: " ++ keyArgument key ++ " \x7d"

def update (m : NamedModel) (key : Key) : Method where
  name := "update"
  parameters := [⟨"key", m.keyType, none⟩, ⟨"data", "Partial<" ++ m.createDtoClass ++ ">", none⟩]
  result := m.entityClass
  callee := callee m "update"
  argument := "\x7b where: " ++ keyArgument key ++ ", data \x7d"

def remove (m : NamedModel) (key : Key) : Method where
  name := "remove"
  parameters := [⟨"key", m.keyType, none⟩]
  result := m.entityClass
  callee := callee m "delete"
  argument := "\x7b where: " ++ keyArgument key ++ " \x7d"

/-- The methods of a service, in order. -/
def methodsOf (m : NamedModel) : Option Key → List Method
  | some key => [create m, findOne m key, findMany m, update m key, remove m key]
  | none => [create m, findMany m]

/-- What a service imports, given the module of the database client. -/
def importsOf (m : NamedModel) (client : String) (key : Option Key) : Imports :=
  let entity := "./" ++ m.entityModule
  ⟨[⟨"@nestjs/common", "Injectable"⟩, ⟨client, "PrismaClient"⟩, ⟨entity, m.entityClass⟩,
      ⟨"./dtos/" ++ m.dtoModule, m.createDtoClass⟩] ++
    (key.map fun _ => Import.mk entity m.keyType).toList⟩

/-- The service of a model. -/
def ofModel (c : Context) (m : NamedModel) : Except Error Service := do
  let client ← c.clientImportPath
  let key ← m.model.key
  return {
    imports := importsOf m client key
    className := m.serviceClass
    methods := methodsOf m key }

end Service

end Scaffold.Artifact
