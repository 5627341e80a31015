import Scaffold.TypeScript.Documentation
import Scaffold.TypeScript.Imports

/-! # Classes

The parts of a class: types, decorators, properties and methods. Each part has a
text of its own, and the text of a class only puts them together.
-/

namespace Scaffold.TypeScript

/-- The type of a property: a base, a list of it, or either of them or null. -/
structure TypeExpr where
  base : String
  isList : Bool
  nullable : Bool
deriving DecidableEq, Repr

def TypeExpr.text (t : TypeExpr) : String :=
  t.base ++ (if t.isList then "[]" else "") ++ if t.nullable then " | null" else ""

/-- An argument of a decorator. -/
inductive Argument
  | expression (text : String)
  /-- An object of options, each with its name and value. -/
  | options (entries : List String)
deriving DecidableEq, Repr

def Argument.text : Argument → String
  | expression text => text
  | options entries => "\x7b " ++ ", ".intercalate entries ++ " \x7d"

/-- A decorator, and the module that provides it. -/
structure Decorator where
  module : String
  name : String
  arguments : List Argument
deriving DecidableEq, Repr

namespace Decorator

/-- A decorator with options, or without arguments if there is no option. -/
def withOptions (module name : String) (entries : List String) : Decorator :=
  ⟨module, name, if entries.isEmpty then [] else [.options entries]⟩

/-- A decorator without the sign in front of it. -/
def call (d : Decorator) : String :=
  d.name ++ "(" ++ ", ".intercalate (d.arguments.map Argument.text) ++ ")"

def text (d : Decorator) : String :=
  "@" ++ d.call

/-- What a file has to import for a decorator. -/
def required (d : Decorator) : Import :=
  ⟨d.module, d.name⟩

/-- The name in the text of a call: all that stands before the first bracket. -/
def nameInCall (call : String) : String :=
  String.ofList (call.toList.takeWhile (· ≠ '('))

end Decorator

/-- A property from its texts. -/
def propertyText (name type : String) (isOptional : Bool) (decorators : List String)
    (documentation : Option String) : String :=
  commentAbove documentation indentUnit ++
    String.join (decorators.map fun d => indentUnit ++ d ++ "\n") ++
    indentUnit ++ name ++ (if isOptional then "?" else "") ++ ": " ++ type ++ ";\n"

/-- A property of a class. -/
structure Property where
  name : String
  type : TypeExpr
  /-- Whether the property may be left out. -/
  isOptional : Bool
  decorators : List Decorator
  documentation : Option String
deriving DecidableEq, Repr

def Property.text (p : Property) : String :=
  propertyText p.name p.type.text p.isOptional (p.decorators.map Decorator.text) p.documentation

/-- A parameter with its type, and its value where it may be left out. -/
structure Parameter where
  name : String
  type : String
  absent : Option String
deriving DecidableEq, Repr

def Parameter.text (p : Parameter) : String :=
  p.name ++ ": " ++ p.type ++
    match p.absent with
    | some value => " = " ++ value
    | none => ""

/-- A method that hands on the promise of one call. -/
structure Method where
  name : String
  parameters : List Parameter
  /-- What the promise is of. -/
  result : String
  /-- The function called, and its argument. -/
  callee : String
  argument : String
deriving DecidableEq, Repr

def Method.text (m : Method) : String :=
  indentUnit ++ "async " ++ m.name ++ "(" ++ ", ".intercalate (m.parameters.map Parameter.text) ++
    "): Promise<" ++ m.result ++ "> \x7b\n" ++
    indentUnit ++ indentUnit ++ "return " ++ m.callee ++ "(" ++ m.argument ++ ");\n" ++
    indentUnit ++ "\x7d\n"

/-- A class from its texts: static members one after another, and then the other
members with blank lines between them. -/
def classText (header : String) (statics members : List String) : String :=
  header ++ " \x7b\n" ++ String.join (statics.map fun s => indentUnit ++ s ++ "\n") ++
    (if !statics.isEmpty && !members.isEmpty then "\n" else "") ++
    "\n".intercalate members ++ "\x7d\n"

/-- Texts between double quotes, with commas between them. Names need no escape. -/
def quotedList (items : List String) : String :=
  ", ".intercalate (items.map fun item => "\"" ++ item ++ "\"")

end Scaffold.TypeScript
