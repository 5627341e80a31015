import Scaffold.Text.Ascending

/-! # Imports

A file imports names from modules. What it imports is a set: the order in which the
names were asked for and how often do not show. The set is written with one line
for each module, packages first and then the modules of the tree itself, which are
the ones whose name begins with a dot. Modules and names stand in ascending order.
-/

namespace Scaffold.TypeScript

/-- A name, and the module that provides it. -/
structure Import where
  module : String
  name : String
deriving DecidableEq, Repr

/-- The names that a file imports, in the order in which they were asked for. -/
structure Imports where
  entries : List Import
deriving DecidableEq, Repr

namespace Imports

def empty : Imports := ⟨[]⟩

def add (imports : Imports) (entry : Import) : Imports :=
  ⟨imports.entries ++ [entry]⟩

def isEmpty (imports : Imports) : Bool :=
  imports.entries.isEmpty

/-- Whether a module belongs to the tree itself. -/
def isRelative (module : String) : Bool :=
  module.toList.head? = some '.'

/-- The names imported from a module. -/
def names (imports : Imports) (module : String) : List String :=
  Text.ascending ((imports.entries.filter fun e => e.module = module).map Import.name)

/-- The modules in the order of their lines. -/
def modules (imports : Imports) : List String :=
  let all := Text.ascending (imports.entries.map Import.module)
  all.filter (fun module => !isRelative module) ++ all.filter isRelative

/-- The line of one module. -/
def line (imports : Imports) (module : String) : String :=
  "import \x7b " ++ ", ".intercalate (imports.names module) ++ " \x7d from \"" ++ module ++ "\";\n"

def render (imports : Imports) : String :=
  String.join (imports.modules.map imports.line)

/-- The imports in front of what follows them, with a blank line between the two. -/
def renderBlock (imports : Imports) : String :=
  if imports.isEmpty then "" else imports.render ++ "\n"

end Imports

end Scaffold.TypeScript
