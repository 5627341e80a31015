import Scaffold.Context
import Scaffold.TypeScript.Class

/-! # Types of fields

What a field is in TypeScript, as far as its kind, its cardinality and its
nullability decide it: the type of its property, the options of its OpenAPI
description, and the decorators that check incoming values.
-/

namespace Scaffold.Artifact

open Naming (Name)
open Schema
open TypeScript

/-- The module of the OpenAPI decorators. -/
def openApiModule : String := "@nestjs/swagger"

/-- The module of the decorators that check values. -/
def validatorModule : String := "class-validator"

/-- The module of the decorator that turns a value into an instance of a class. -/
def transformerModule : String := "class-transformer"

/-- The namespace of the client of the database. -/
def clientNamespace : String := "Prisma"

/-- What the type of a field refers to. -/
inductive Reference
  | scalar (type : Scalar)
  /-- A generated enum. -/
  | enumeration (names : Name)
  /-- The generated class of a model. -/
  | entity (names : Name)
  /-- An embedded object. -/
  | object
deriving DecidableEq, Repr

/-- The class that a model's records have. -/
def entityClassOf (names : Name) : String :=
  names.pascal ++ "Base"

/-- The type of one value. -/
def Reference.base : Reference → String
  | scalar type => type.tsType
  | enumeration names => names.pascal
  | entity names => entityClassOf names
  | object => "Record<string, unknown>"

/-- The options that describe one value. -/
def Reference.openApiOptions : Reference → List String
  | scalar type =>
    ("type: " ++ type.openApiType) ::
      (type.openApiFormat?.map fun format => "format: \"" ++ format ++ "\"").toList
  | enumeration names => ["enum: " ++ names.pascal, "enumName: \"" ++ names.pascal ++ "\""]
  | entity names => ["type: () => " ++ entityClassOf names]
  | object => ["type: Object"]

/-- The type of a field. -/
structure FieldType where
  reference : Reference
  isList : Bool
  /-- Whether null is a value. -/
  nullable : Bool
deriving DecidableEq, Repr

namespace FieldType

def typeExpr (t : FieldType) : TypeExpr :=
  ⟨t.reference.base, t.isList, t.nullable⟩

def isRelation (t : FieldType) : Bool :=
  match t.reference with
  | .entity _ => true
  | _ => false

/-- Whether the type is found in the namespace of the database client. -/
def needsClientNamespace (t : FieldType) : Bool :=
  match t.reference with
  | .scalar type => type.needsClientNamespace
  | _ => false

/-- The options of the OpenAPI description. -/
def openApiOptions (t : FieldType) : List String :=
  t.reference.openApiOptions ++ (if t.isList then ["isArray: true"] else []) ++
    if t.nullable then ["nullable: true"] else []

/-- The option with which a check looks at every item of a list. -/
def eachOption (t : FieldType) : List Argument :=
  if t.isList then [.options ["each: true"]] else []

/-- The check of a list as such. -/
def listCheck (t : FieldType) : List Decorator :=
  if t.isList then [⟨validatorModule, "IsArray", []⟩] else []

/-- The checks of single values. Times arrive as text and are turned into times first. -/
def valueChecks (t : FieldType) : List Decorator :=
  match t.reference with
  | .scalar type =>
    (type.validator?.map fun name => Decorator.mk validatorModule name t.eachOption).toList ++
      if type = .dateTime then [⟨transformerModule, "Type", [.expression "() => Date"]⟩] else []
  | .enumeration names => [⟨validatorModule, "IsEnum", .expression names.pascal :: t.eachOption⟩]
  | .entity _ | .object => []

/-- The decorators that check incoming values. -/
def validators (t : FieldType) : List Decorator :=
  t.listCheck ++ t.valueChecks

/-- What a field of a model refers to. -/
def referenceOf (c : Context) (model : String) (f : Field) : Except Error Reference :=
  match f.kind with
  | .scalar type => .ok (.scalar type)
  | .enumeration name =>
    match c.enumNames.find? name with
    | some names => .ok (.enumeration names)
    | none => .error (.enumNotFound model f.name name)
  | .relation r =>
    match c.modelNames.find? r.model with
    | some names => .ok (.entity names)
    | none => .error (.modelNotFound r.model (model ++ "." ++ f.name))
  | .object _ => .ok .object

/-- The type of a field of a model. -/
def ofField (c : Context) (model : String) (f : Field) : Except Error FieldType :=
  (referenceOf c model f).map fun reference => ⟨reference, f.isList, !f.required⟩

end FieldType

/-- The OpenAPI description of a property. -/
def openApiDecorator (isOptional : Bool) (entries : List String) : Decorator :=
  .withOptions openApiModule (if isOptional then "ApiPropertyOptional" else "ApiProperty") entries

end Scaffold.Artifact
