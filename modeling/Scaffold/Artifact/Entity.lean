import Scaffold.Artifact.FieldType
import Scaffold.Schema.Validation

/-! # Entities

The entity of a model is the class of its records, with a property for every field.
Beside it stand the type of its key and, if relations are kept apart, a class of
the relations alone and the type of records together with them.

An entity is only made if every name in the model's keys, indexes and types
resolves. What is missing is reported in a fixed order: the key, the unique
indexes, the types of the fields, and last the place of the database client.
-/

namespace Scaffold.Artifact

open Schema
open TypeScript

/-- The type of a key: its name, and its members with their types. -/
structure KeyType where
  name : String
  members : List (String × TypeExpr)
deriving DecidableEq, Repr

/-- A class of relations, and the type of records together with them. -/
structure RelationsClass where
  name : String
  withRelationsType : String
  properties : List Property
deriving DecidableEq, Repr

/-- The file of an entity. -/
structure Entity where
  imports : Imports
  keyType : Option KeyType
  documentation : Option String
  className : String
  /-- The names of the key fields, if there is a key. -/
  primaryKey : Option (List String)
  /-- The names in the unique indexes. -/
  uniqueIndexes : List (List String)
  properties : List Property
  /-- The relations, if they are kept apart. -/
  relations : Option RelationsClass
deriving DecidableEq, Repr

def KeyType.text (k : KeyType) : String :=
  "export type " ++ k.name ++ " = \x7b\n" ++
    String.join (k.members.map fun (name, type) =>
      indentUnit ++ name ++ ": " ++ type.text ++ ";\n") ++
    "\x7d;\n"

/-- A static member that lists names for the type checker to rely on. -/
def constantText (name items : String) : String :=
  "static readonly " ++ name ++ " = [" ++ items ++ "] as const;"

/-- The static members of the class. -/
def Entity.statics (e : Entity) : List String :=
  (e.primaryKey.map fun names => constantText "primaryKey" (quotedList names)).toList ++
    if e.uniqueIndexes.isEmpty then []
    else
      let indexes := e.uniqueIndexes.map fun names => "[" ++ quotedList names ++ "]"
      [constantText "uniqueIndexes" (", ".intercalate indexes)]

/-- The class of relations, and the type of records of a class together with them. -/
def RelationsClass.text (r : RelationsClass) (className : String) : String :=
  "\n" ++ classText ("export class " ++ r.name) [] (r.properties.map Property.text) ++
    "\n" ++ "export type " ++ r.withRelationsType ++ " = " ++ className ++ " & " ++ r.name ++ ";\n"

def Entity.text (e : Entity) : String :=
  e.imports.renderBlock ++
    (match e.keyType with
      | some key => key.text ++ "\n"
      | none => "") ++
    commentAbove e.documentation "" ++
    classText ("export class " ++ e.className) e.statics (e.properties.map Property.text) ++
    match e.relations with
    | some relations => relations.text e.className
    | none => ""

/-- A field together with its type. -/
structure TypedField where
  field : Field
  type : FieldType

/-- The fields of a model with their types. -/
def typedFields (c : Context) (m : Model) : Except Error (List TypedField) :=
  m.fields.mapM fun f => (FieldType.ofField c m.name f).map (TypedField.mk f)

/-- What an entity has to import for the type of one of its properties. The class
of the entity itself needs no import. -/
def entityImport? (c : Context) (m : NamedModel) (t : FieldType) :
    Except Error (Option Import) :=
  match t.reference with
  | .enumeration names => .ok (some ⟨"../enums/" ++ names.pascal, names.pascal⟩)
  | .entity names =>
    if names = m.names then .ok none
    else
      .ok (some ⟨"../" ++ names.camel ++ "/" ++ entityClassOf names, entityClassOf names⟩)
  | .scalar _ =>
    if t.needsClientNamespace then
      c.clientImportPath.map fun path => some ⟨path, clientNamespace⟩
    else .ok none
  | .object => .ok none

/-- The decorators of a property of an entity. A field that callers never supply is
described as one to be read only. -/
def entityDecorators (c : Context) (t : TypedField) : List Decorator :=
  if c.config.useSwagger then
    let readOnly := if t.field.isSystemManaged then ["readOnly: true"] else []
    [openApiDecorator t.type.nullable (t.type.openApiOptions ++ readOnly)]
  else []

/-- The property of a field. It may be left out exactly if null is a value of it. -/
def entityProperty (c : Context) (t : TypedField) : Property where
  name := t.field.name
  type := t.type.typeExpr
  isOptional := t.type.nullable
  decorators := entityDecorators c t
  documentation := t.field.documentation

/-- The members of the type of a key. A member has the type of the first field of
its name. -/
def keyMembers (typed : List TypedField) (key : Key) : List (String × TypeExpr) :=
  key.fields.map fun f =>
    match typed.find? fun t => t.field.name = f.name with
    | some t => (f.name, t.type.typeExpr)
    | none => (f.name, ⟨"unknown", false, false⟩)

/-- The entity of a model. -/
def Entity.ofModel (c : Context) (m : NamedModel) : Except Error Entity := do
  let key ← m.model.key
  match m.model.uniqueIndexes.findSome? fun index => m.model.unknownField? index.fields with
  | some e => .error e
  | none =>
    let typed ← typedFields c m.model
    let typeImports ← typed.mapM fun t => entityImport? c m t.type
    let apart := c.config.separateRelationFields
    let relations := typed.filter fun t => t.type.isRelation
    let others := typed.filter fun t => !t.type.isRelation
    let decorators := typed.flatMap (entityDecorators c)
    return {
      imports := ⟨typeImports.filterMap id ++ decorators.map Decorator.required⟩
      keyType := key.map fun k => ⟨m.keyType, keyMembers typed k⟩
      documentation := m.model.documentation
      className := m.entityClass
      primaryKey := key.map fun k => k.fields.map Field.name
      uniqueIndexes := m.model.uniqueIndexes.map UniqueIndex.fields
      properties := (if apart then others else typed).map (entityProperty c)
      relations :=
        if apart then
          some ⟨m.relationsClass, m.withRelationsType, relations.map (entityProperty c)⟩
        else none }

end Scaffold.Artifact
