import Scaffold.Artifact.FieldType

/-! # Input of creation

The create-DTO of a model is the class of what callers supply to create a record.
Relations are left out, and so is every field that callers never supply; the fields
that hold the reference of a relation are ordinary fields and stay. A field may be
left out if null is a value of it or if it has a default.
-/

namespace Scaffold.Artifact

open Schema
open TypeScript

/-- The file of a create-DTO. -/
structure CreateDto where
  imports : Imports
  className : String
  properties : List Property
deriving DecidableEq, Repr

def CreateDto.text (d : CreateDto) : String :=
  d.imports.renderBlock ++
    classText ("export class " ++ d.className) [] (d.properties.map Property.text)

/-- Whether callers may leave a field out. -/
def isOptionalInput (f : Field) : Bool :=
  !f.required || f.hasInputDefault

/-- What a create-DTO has to import for the type of one of its properties. -/
def dtoImport? (c : Context) (t : FieldType) : Except Error (Option Import) :=
  match t.reference with
  | .enumeration names => .ok (some ⟨"../../enums/" ++ names.pascal, names.pascal⟩)
  | .scalar _ =>
    if t.needsClientNamespace then
      c.clientImportPath.map fun path => some ⟨path, clientNamespace⟩
    else .ok none
  | .entity _ | .object => .ok none

/-- The decorators of a property of a create-DTO. -/
def dtoDecorators (c : Context) (f : Field) (t : FieldType) : List Decorator :=
  (if c.config.useSwagger then [openApiDecorator (isOptionalInput f) t.openApiOptions] else []) ++
    (if isOptionalInput f then [⟨validatorModule, "IsOptional", []⟩] else []) ++ t.validators

/-- The property of a field. -/
def dtoProperty (c : Context) (f : Field) (t : FieldType) : Property where
  name := f.name
  type := t.typeExpr
  isOptional := isOptionalInput f
  decorators := dtoDecorators c f t
  documentation := f.documentation

/-- The property of a field of a model, with what its type has to import. -/
def dtoField (c : Context) (model : String) (f : Field) :
    Except Error (Option Import × Property) := do
  let t ← FieldType.ofField c model f
  let typeImport ← dtoImport? c t
  return (typeImport, dtoProperty c f t)

/-- The create-DTO of a model. -/
def CreateDto.ofModel (c : Context) (m : NamedModel) : Except Error CreateDto := do
  let fields ← m.createFields.mapM (dtoField c m.model.name)
  let decorators := fields.flatMap fun field => field.2.decorators
  return {
    imports := ⟨fields.filterMap Prod.fst ++ decorators.map Decorator.required⟩
    className := m.createDtoClass
    properties := fields.map Prod.snd }

end Scaffold.Artifact
