import Scaffold.Document.Options
import Scaffold.Path.Lexical

/-! # The client of the database

Generated services import the client of the database, so its place has to be known
relative to the project. The root of the project is found from the path of the
schema file, which stands either in the root or in a directory of its own below it.
The client is where the generator that makes it puts it, or else where packages are.

A client that lies in the directory of packages is imported as a package: the first
mention of that directory in the way to the client is left out.
-/

namespace Scaffold

open Document (Environment Options)

/-- Where the client of the database is, and what generated files call it. -/
structure ClientPaths where
  /-- The root of the project. -/
  root : Path
  /-- The directory of the client. -/
  client : Path
  /-- The module from which generated files import the client. -/
  importPath : String
deriving DecidableEq, Repr

namespace ClientPaths

/-- The place of a schema file in a project that keeps it apart. -/
def schemaPlace : List Component :=
  [.name "prisma", .name "schema.prisma"]

/-- The place of the client in a project that says nothing about it. -/
def defaultClient : Path :=
  ⟨"node_modules/@prisma/client"⟩

/-- The root of the project that a schema file belongs to. -/
def projectRoot (schema : Path) : Path :=
  let root? :=
    if schema.endsWith schemaPlace then schema.parent?.bind Path.parent? else schema.parent?
  match root? with
  | some root => if root.text.isEmpty then ⟨"."⟩ else root
  | none => ⟨"."⟩

/-- A list without the first occurrence of some run of entries. -/
def removeFirst [DecidableEq α] (run : List α) : List α → List α
  | [] => []
  | entry :: rest =>
    if run.isPrefixOf (entry :: rest) then (entry :: rest).drop run.length
    else entry :: removeFirst run rest

/-- The module to import for a client that a given way leads to. -/
def importPathOf (way : String) : String :=
  String.ofList (removeFirst "node_modules/".toList way.toList)

/-- The paths for a known root and client. -/
def ofPaths (workingDirectory root client : Path) : Except Error ClientPaths :=
  (Path.relative workingDirectory root client).map fun way => ⟨root, client, importPathOf way⟩

/-- The paths that a document implies. -/
def resolve (options : Options) (env : Environment) (workingDirectory : Path) :
    Except Error ClientPaths := do
  let root := (options.schemaPath.map projectRoot).getD ⟨"."⟩
  match options.clientGenerator?.bind Document.Generator.output with
  | some output =>
    let client ← output.resolve env "database client output"
    ofPaths workingDirectory root ⟨client⟩
  | none => ofPaths workingDirectory root (root.join defaultClient)

end ClientPaths

end Scaffold
