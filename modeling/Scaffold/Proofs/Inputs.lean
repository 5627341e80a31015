import Scaffold.Proofs.Properties

/-!
# What callers supply

The create-DTO of a model is the part of its entity that callers fill in. A field is left
out of it for one of nine reasons, `Maintained`, or because it is a relation; every other
field is there, in the order of the model and with the type it has in the entity. A field
may be omitted in a request exactly if something stands in for its value, null or a
default.

No relation is lost by this. The fields that hold its reference are fields of the model,
as validation has made sure, so each of them is asked for unless it is left out for a
reason of its own.
-/

namespace Scaffold

open Document (Environment Options)
open Naming (Name)
open Schema
open TypeScript

namespace Schema

theorem Default.isNow_iff {d : Default} : d.isNow = true ↔ ∃ args, d = .function "now" args := by
  cases d with
  | function name args => simp [isNow, functionName?]
  | literal value => simp [isNow, functionName?]

theorem Default.isAutoincrement_iff {d : Default} :
    d.isAutoincrement = true ↔ ∃ args, d = .function "autoincrement" args := by
  cases d with
  | function name args => simp [isAutoincrement, functionName?]
  | literal value => simp [isAutoincrement, functionName?]

theorem Default.isGenerator_iff {d : Default} :
    d.isGenerator = true ↔ ∃ name ∈ generatorNames, ∃ args, d = .function name args := by
  cases d with
  | function name args => simp [isGenerator, functionName?]
  | literal value => simp [isGenerator, functionName?]

theorem Marker.ofWord?_eq_some_iff {word : String} {marker : Marker} :
    ofWord? word = some marker ↔ word = markerStart ++ marker.name := by
  constructor
  · intro h
    simpa using List.find?_some h
  · rintro rfl
    cases marker <;> decide

namespace Field

variable {f : Field}

/-- A field with a marker among the words of its documentation. -/
def Marked (f : Field) (marker : Marker) : Prop :=
  ∃ text, f.documentation = some text ∧ markerStart ++ marker.name ∈ Text.words text

theorem hasMarker_iff {marker : Marker} : f.hasMarker marker = true ↔ f.Marked marker := by
  rw [hasMarker, List.contains_iff_mem, markers, Marked]
  cases f.documentation with
  | none => simp [markersOf]
  | some text => simp [markersOf, List.mem_filterMap, Marker.ofWord?_eq_some_iff]

/-- The reasons for which callers never supply a field. -/
inductive Maintained (f : Field) : Prop
  | createdAtMarker (h : f.Marked .createdAt)
  | createdNow {args : List Json.Value} (hkind : f.kind = .scalar .dateTime)
      (hdefault : f.defaultValue = some (.function "now" args))
  | updatedAt (h : f.updatedAt = true)
  | updatedAtMarker (h : f.Marked .updatedAt)
  | readOnly (h : f.readOnly = true)
  | readOnlyMarker (h : f.Marked .readOnly)
  | generated (h : f.generated = true)
  | counted {args : List Json.Value}
      (hdefault : f.defaultValue = some (.function "autoincrement" args))
  | generatedId {name : String} {args : List Json.Value} (hid : f.isId = true)
      (hname : name ∈ Default.generatorNames)
      (hdefault : f.defaultValue = some (.function name args))

theorem isCreatedAt_iff :
    f.isCreatedAt = true ↔ f.Marked .createdAt ∨
      (f.kind = .scalar .dateTime ∧ ∃ args, f.defaultValue = some (.function "now" args)) := by
  simp only [isCreatedAt, Bool.or_eq_true, hasMarker_iff, Bool.and_eq_true, decide_eq_true_eq,
    Option.any_eq_true, Default.isNow_iff]
  refine or_congr_right (and_congr_right fun _ => ?_)
  constructor
  · rintro ⟨d, hd, args, rfl⟩
    exact ⟨args, hd⟩
  · rintro ⟨args, hd⟩
    exact ⟨_, hd, args, rfl⟩

theorem isAutoGenerated_iff :
    f.isAutoGenerated = true ↔ f.generated = true ∨
      (∃ args, f.defaultValue = some (.function "autoincrement" args)) ∨
      (f.isId = true ∧ ∃ name ∈ Default.generatorNames, ∃ args,
        f.defaultValue = some (.function name args)) := by
  simp only [isAutoGenerated, Bool.or_eq_true, Option.any_eq_true, Bool.and_eq_true,
    Default.isAutoincrement_iff, Default.isGenerator_iff]
  refine or_congr_right ?_
  constructor
  · rintro ⟨d, hd, ⟨args, rfl⟩ | ⟨hid, name, hname, args, rfl⟩⟩
    · exact .inl ⟨args, hd⟩
    · exact .inr ⟨hid, name, hname, args, hd⟩
  · rintro (⟨args, hd⟩ | ⟨hid, name, hname, args, hd⟩)
    · exact ⟨_, hd, .inl ⟨args, rfl⟩⟩
    · exact ⟨_, hd, .inr ⟨hid, name, hname, args, rfl⟩⟩

theorem isSystemManaged_iff : f.isSystemManaged = true ↔ f.Maintained := by
  simp only [isSystemManaged, isUpdatedAt, isReadOnly, Bool.or_eq_true, isCreatedAt_iff,
    isAutoGenerated_iff, hasMarker_iff]
  constructor
  · rintro ((((h | ⟨hkind, args, hd⟩) | h | h) | h | h) |
      h | ⟨args, hd⟩ | ⟨hid, name, hname, args, hd⟩)
    · exact .createdAtMarker h
    · exact .createdNow hkind hd
    · exact .updatedAt h
    · exact .updatedAtMarker h
    · exact .readOnly h
    · exact .readOnlyMarker h
    · exact .generated h
    · exact .counted hd
    · exact .generatedId hid hname hd
  · intro h
    cases h with
    | createdAtMarker h => exact .inl (.inl (.inl (.inl h)))
    | createdNow hkind hd => exact .inl (.inl (.inl (.inr ⟨hkind, _, hd⟩)))
    | updatedAt h => exact .inl (.inl (.inr (.inl h)))
    | updatedAtMarker h => exact .inl (.inl (.inr (.inr h)))
    | readOnly h => exact .inl (.inr (.inl h))
    | readOnlyMarker h => exact .inl (.inr (.inr h))
    | generated h => exact .inr (.inl h)
    | counted hd => exact .inr (.inr (.inl ⟨_, hd⟩))
    | generatedId hid hname hd => exact .inr (.inr (.inr ⟨hid, _, hname, _, hd⟩))

instance : Decidable f.Maintained :=
  decidable_of_iff _ isSystemManaged_iff

/-- A field whose value may be missing: it is null then, or the default. -/
def MayBeOmitted (f : Field) : Prop :=
  f.required = false ∨ f.hasDefault = true ∨ f.defaultValue ≠ none

end Field

/-- The fields of a model that callers supply. -/
def Model.suppliedFields (m : Model) : List Field :=
  m.fields.filter fun f => f.isRelation = false ∧ ¬ f.Maintained

theorem Model.mem_suppliedFields {m : Model} {f : Field} :
    f ∈ m.suppliedFields ↔ f ∈ m.fields ∧ f.isRelation = false ∧ ¬ f.Maintained := by
  rw [suppliedFields, List.mem_filter, decide_eq_true_eq]

end Schema

theorem NamedModel.createFields_eq {m : NamedModel} : m.createFields = m.model.suppliedFields := by
  refine List.filter_congr fun f _ => ?_
  rw [Bool.eq_iff_iff, decide_eq_true_eq, Bool.and_eq_true, Bool.not_eq_true', Bool.not_eq_true',
    ← Field.isSystemManaged_iff, Bool.not_eq_true]

namespace Artifact

variable {c : Context} {m : NamedModel}

/-! ## Properties of create-DTOs

The text of a decorator is compared and not the decorator itself. Since the names that a
create-DTO can use are known and none has a bracket in it, the text gives away the name. -/

theorem isOptionalInput_iff {f : Field} : isOptionalInput f = true ↔ f.MayBeOmitted := by
  simp [isOptionalInput, Field.hasInputDefault, Field.MayBeOmitted, Option.isSome_iff_ne_none]

/-- The name of a decorator is in its text. -/
theorem name_eq_of_text_eq {d : Decorator} (d' : Decorator) (h : d.text = d'.text)
    (hd : d.required ∈ libraryImports) (hd' : d'.required ∈ libraryImports) : d.name = d'.name := by
  have hcall : d.call = d'.call := (String.append_right_inj _).mp h
  rw [← Decorator.nameInCall_call (not_mem_name_libraryImports _ hd),
    ← Decorator.nameInCall_call (not_mem_name_libraryImports _ hd'), hcall]

/-- The checks of single values, each with the option that extends it to the items of a list,
and what makes a time of a text. -/
inductive IsValueCheck (t : FieldType) : Decorator → Prop
  | scalar {type : Scalar} {name : String} (hname : type.validator? = some name) :
      IsValueCheck t ⟨validatorModule, name, t.eachOption⟩
  | enumeration (n : Name) :
      IsValueCheck t ⟨validatorModule, "IsEnum", .expression n.pascal :: t.eachOption⟩
  | time : IsValueCheck t ⟨transformerModule, "Type", [.expression "() => Date"]⟩

/-- The decorators that a property of a create-DTO can have. -/
inductive IsInputDecorator (f : Field) (t : FieldType) : Decorator → Prop
  | description : IsInputDecorator f t (openApiDecorator (isOptionalInput f) t.openApiOptions)
  | isOptional (h : isOptionalInput f = true) :
      IsInputDecorator f t ⟨validatorModule, "IsOptional", []⟩
  | isArray (h : t.isList = true) : IsInputDecorator f t ⟨validatorModule, "IsArray", []⟩
  | value {d : Decorator} (h : IsValueCheck t d) : IsInputDecorator f t d

theorem isValueCheck_of_mem {t : FieldType} {d : Decorator} (hd : d ∈ t.valueChecks) :
    IsValueCheck t d := by
  rw [FieldType.valueChecks] at hd
  split at hd
  · rcases List.mem_append.mp hd with hd | hd
    · obtain ⟨name, hname, rfl⟩ := Option.map_eq_some_iff.mp (Option.mem_toList.mp hd)
      exact .scalar hname
    · split at hd
      · exact List.mem_singleton.mp hd ▸ .time
      · cases hd
  · exact List.mem_singleton.mp hd ▸ .enumeration _
  · cases hd
  · cases hd

theorem isInputDecorator_of_mem {f : Field} {t : FieldType} {d : Decorator}
    (hd : d ∈ dtoDecorators c f t) : IsInputDecorator f t d := by
  simp only [dtoDecorators, FieldType.validators, FieldType.listCheck, List.mem_append] at hd
  rcases hd with (hd | hd) | hd | hd
  · split at hd
    · exact List.mem_singleton.mp hd ▸ .description
    · cases hd
  · split at hd
    · next h => exact List.mem_singleton.mp hd ▸ .isOptional h
    · cases hd
  · split at hd
    · next h => exact List.mem_singleton.mp hd ▸ .isArray h
    · cases hd
  · exact .value (isValueCheck_of_mem hd)

theorem name_openApiDecorator (isOptional : Bool) (entries : List String) :
    (openApiDecorator isOptional entries).name ∈ ["ApiProperty", "ApiPropertyOptional"] := by
  cases isOptional <;> simp [openApiDecorator, Decorator.withOptions]

theorem IsValueCheck.name_mem {t : FieldType} {d : Decorator} (h : IsValueCheck t d) :
    d.name ∈ ["IsString", "IsBoolean", "IsInt", "IsNumber", "IsNumberString", "IsDate", "IsEnum",
      "Type"] := by
  cases h with
  | @scalar type name hname =>
      show name ∈ _
      cases type <;> cases hname <;> decide
  | enumeration n => simp
  | time => decide

/-- A property of a create-DTO is decorated as optional exactly if it may be left out. -/
theorem exists_isOptional_iff {f : Field} {t : FieldType} :
    (∃ d ∈ dtoDecorators c f t, d.text = "@IsOptional()") ↔ isOptionalInput f = true := by
  constructor
  · rintro ⟨d, hd, htext⟩
    have hname : d.name = "IsOptional" :=
      name_eq_of_text_eq ⟨validatorModule, "IsOptional", []⟩ htext
        (required_dtoDecorators f t d hd) (by decide)
    cases isInputDecorator_of_mem hd with
    | description => exact absurd (hname ▸ name_openApiDecorator _ _) (by decide)
    | isOptional h => exact h
    | isArray => exact absurd hname (by decide)
    | value h => exact absurd (hname ▸ h.name_mem) (by decide)
  · intro h
    refine ⟨⟨validatorModule, "IsOptional", []⟩, ?_, by decide⟩
    rw [dtoDecorators, if_pos h]
    simp

/-- The line that lets a property be missing. -/
def optionalLine : String := "    @IsOptional()\n"

theorem decoratorLine_eq_optionalLine_iff {d : Decorator} :
    decoratorLine d = optionalLine ↔ d.text = "@IsOptional()" := by
  have hline : optionalLine = indentUnit ++ "@IsOptional()" ++ "\n" := by decide
  rw [decoratorLine_eq, hline, String.append_left_inj, String.append_right_inj]

/-- A property of a create-DTO that asks for a field of an entity, which is written to a file. -/
structure AsksFor (e : Entity) (file : GeneratedFile) (f : Field) (p : Property) : Prop where
  name : p.name = f.name
  type : ∃ q ∈ e.properties, (Body.entity e).IsPropertyOf f.name q ∧ p.type = q.type ∧
    file.Contains (propertyLines q)
  isOptional : p.isOptional = true ↔ f.MayBeOmitted
  decorated : (∃ d ∈ p.decorators, decoratorLine d = optionalLine) ↔ f.MayBeOmitted

theorem asksFor_dtoProperty {e : Entity} (he : Entity.ofModel c m = .ok e)
    {file : GeneratedFile} (hfile : file.Holds ⟨m.entityPath, .entity e⟩)
    (hnodup : (m.model.fields.map Field.name).Nodup) {f : Field} (hf : f ∈ m.model.fields)
    (hown : f.isRelation = false) {t : FieldType}
    (ht : FieldType.ofField c m.model.name f = .ok t) :
    AsksFor e file f (dtoProperty c f t) where
  name := rfl
  type := by
    obtain ⟨hclass, hone⟩ := isPropertyOf_entity he hnodup hf ht
    have hclassOf : e.classOf f = e.properties := by
      rw [Entity.classOf, hown]
      cases e.relations <;> rfl
    have hwritten := (List.mem_filter.mp (hone ▸ List.mem_singleton.mpr rfl)).1
    exact ⟨_, hclassOf ▸ hclass, hone, rfl, hfile.contains_property hwritten⟩
  isOptional := isOptionalInput_iff
  decorated := by
    simp only [decoratorLine_eq_optionalLine_iff]
    exact exists_isOptional_iff.trans isOptionalInput_iff

/-- A create-DTO asks for the supplied fields of its model one after another. -/
theorem forall₂_properties_createDto {e : Entity} (he : Entity.ofModel c m = .ok e)
    {file : GeneratedFile} (hfile : file.Holds ⟨m.entityPath, .entity e⟩)
    (hnodup : (m.model.fields.map Field.name).Nodup) {d : CreateDto}
    (hd : CreateDto.ofModel c m = .ok d) :
    List.Forall₂ (AsksFor e file) m.model.suppliedFields d.properties := by
  obtain ⟨fields, hfields, rfl⟩ := createDto_ofModel_eq_ok.mp hd
  rw [NamedModel.createFields_eq] at hfields
  have hmade := mapM_eq_ok_iff.mp hfields
  refine List.forall₂_map_right_iff.mpr ?_
  refine List.forall₂_iff_zip.mpr ⟨hmade.length_eq, fun {f entry} hzip => ?_⟩
  obtain ⟨t, ht, -, hp⟩ := dtoField_eq_ok.mp ((List.forall₂_iff_zip.mp hmade).2 hzip)
  obtain ⟨hf, hown, -⟩ := Model.mem_suppliedFields.mp (List.of_mem_zip hzip).1
  rw [← hp]
  exact asksFor_dtoProperty he hfile hnodup hf hown ht

/-- The content of the file of a create-DTO: below its imports stands one class, in which the
properties follow each other with blank lines between them. -/
theorem CreateDto.content_eq {d : CreateDto} {file : GeneratedFile} {path : Path}
    (h : file.Holds ⟨path, .createDto d⟩) :
    file.content = banner ++ "\n\n" ++ d.imports.renderBlock ++ "export class " ++ d.className ++
      " \x7b\n" ++ "\n".intercalate (d.properties.map propertyLines) ++ "\x7d\n" := by
  rw [h.content, Body.text, CreateDto.text, classText, Property.map_text, ← String.toList_inj]
  simp

/-- The fields that hold the reference of a relation are asked for, unless they are left
out for a reason of their own. -/
theorem exists_of_mem_fromFields {model : Model} (hsound : model.Sound) {names : List String}
    (hnames : names = model.suppliedFields.map Field.name) {f : Field} (hf : f ∈ model.fields)
    {r : Relation} (hr : f.relation? = some r) {name : String} (hname : name ∈ r.fromFields) :
    ∃ g ∈ model.fields, g.name = name ∧
      (g.isRelation = true ∨ g.Maintained ∨ name ∈ names) := by
  obtain ⟨g, hg, rfl⟩ := hsound.references f hf r hr name hname
  refine ⟨g, hg, rfl, ?_⟩
  by_cases hrelation : g.isRelation = true
  · exact .inl hrelation
  · by_cases hmaintained : g.Maintained
    · exact .inr (.inl hmaintained)
    · refine .inr (.inr (hnames ▸ List.mem_map_of_mem ?_))
      exact Model.mem_suppliedFields.mpr
        ⟨hg, Bool.eq_false_of_not_eq_true hrelation, hmaintained⟩

end Artifact

/-- The create-DTO of a model asks for the fields that callers supply, in their order and
with the types of the entity, and for whatever holds the reference of a relation. The file
at its place holds the properties asked for and no others. -/
theorem generate_inputs {options : Options} {config : Config} {env : Environment}
    {workingDirectory : Path} {out : Output}
    (h : generate options config env workingDirectory = .ok out) :
    ∃ c tree, Generates options config env workingDirectory c tree out ∧
      ∀ model ∈ options.datamodel.models, ∃ n e d f g, Name.ofIdentifier model.name = .ok n ∧
        ⟨(NamedModel.mk model n).entityPath, .entity e⟩ ∈ tree ∧
        out.HandsOver ⟨(NamedModel.mk model n).entityPath, .entity e⟩ f ∧
        ⟨(NamedModel.mk model n).dtoPath, .createDto d⟩ ∈ tree ∧
        out.HandsOver ⟨(NamedModel.mk model n).dtoPath, .createDto d⟩ g ∧
        d.className = "Create" ++ n.pascal ++ "Dto" ∧
        d.properties.map Property.name = model.suppliedFields.map Field.name ∧
        List.Forall₂ (Artifact.AsksFor e f) model.suppliedFields d.properties ∧
        g.content = banner ++ "\n\n" ++ d.imports.renderBlock ++
          "export class Create" ++ n.pascal ++ "Dto \x7b\n" ++
            "\n".intercalate (d.properties.map propertyLines) ++ "\x7d\n" ∧
        ∀ field ∈ model.fields, ∀ r, field.relation? = some r → ∀ name ∈ r.fromFields,
          ∃ other ∈ model.fields, other.name = name ∧
            (other.isRelation = true ∨ other.Maintained ∨
              name ∈ d.properties.map Property.name) := by
  obtain ⟨c, tree, hrun⟩ := exists_generates h
  refine ⟨c, tree, hrun, fun model hmodel => ?_⟩
  obtain ⟨n, e, d, s, hn, he, hd, -, hentity, hdto, -⟩ := hrun.exists_filesOfModel hmodel
  have hsound := (Datamodel.validate_eq_ok_iff.mp hrun.valid).models model hmodel
  obtain ⟨f, hf⟩ := hrun.exists_file hentity
  obtain ⟨g, hg⟩ := hrun.exists_file hdto
  have hasks := Artifact.forall₂_properties_createDto he hf.holds hsound.fieldNames hd
  have hnames : d.properties.map Property.name = model.suppliedFields.map Field.name :=
    forall₂_eq_iff_map_eq.mp (hasks.flip.imp fun _ _ hp => hp.name)
  have hclass : d.className = "Create" ++ n.pascal ++ "Dto" := by
    obtain ⟨fields, -, rfl⟩ := Artifact.createDto_ofModel_eq_ok.mp hd
    rfl
  refine ⟨n, e, d, f, g, hn, hentity, hf, hdto, hg, hclass, hnames, hasks, ?_, ?_⟩
  · rw [Artifact.CreateDto.content_eq hg.holds, hclass]
    simp [← String.toList_inj]
  · intro field hfield r hr name hname
    exact Artifact.exists_of_mem_fromFields hsound hnames hfield hr hname

/-- A model with fields of all kinds: counted, marked, timed, nullable, with a default, and
a relation with the field that holds its reference. -/
def postModel : Model :=
  .plain "Post" [
    ((Field.plain "id" (.scalar .int)).asId).withDefault (.function "autoincrement" []),
    (Field.plain "created" (.scalar .dateTime)).withDefault (.function "now" []),
    (Field.plain "state" (.scalar .string)).withDocumentation "Set by a job. B$ReadOnly",
    (Field.plain "title" (.scalar .string)).withDefault (.literal (.string "")),
    (Field.plain "tags" (.scalar .string)).asList,
    Field.plain "author" (.relation ⟨"User", "PostAuthor", ["authorId"], ["id"]⟩),
    (Field.plain "authorId" (.scalar .int)).asOptional]

def postDatamodel : Datamodel where
  enums := []
  models := [.plain "User" [(Field.plain "id" (.scalar .int)).asId], postModel]

/-- What its create-DTO asks for. -/
def postInputs : String :=
  "export class CreatePostDto \x7b\n" ++
    "    @ApiPropertyOptional(\x7b type: String \x7d)\n    @IsOptional()\n    @IsString()\n" ++
    "    title?: string;\n\n" ++
    "    @ApiProperty(\x7b type: String, isArray: true \x7d)\n    @IsArray()\n" ++
    "    @IsString(\x7b each: true \x7d)\n    tags: string[];\n\n" ++
    "    @ApiPropertyOptional(\x7b type: Number, nullable: true \x7d)\n    @IsOptional()\n" ++
    "    @IsInt()\n    authorId?: number | null;\n\x7d\n"

theorem generate_inputs_postDatamodel :
    ∃ out, generate (.ofDatamodel postDatamodel) .standard (fun _ => none) ⟨"/work"⟩ = .ok out ∧
      postModel.suppliedFields.map Field.name = ["title", "tags", "authorId"] ∧
      ∃ c tree e d f g,
        Generates (.ofDatamodel postDatamodel) .standard (fun _ => none) ⟨"/work"⟩ c tree out ∧
        out.filesAt ⟨"post/dtos/Create-Post.dto.ts"⟩ = [g] ∧
        g.Holds ⟨⟨"post/dtos/Create-Post.dto.ts"⟩, .createDto d⟩ ∧ g.Contains postInputs ∧
        d.properties.map Property.name = ["title", "tags", "authorId"] ∧
        List.Forall₂ (Artifact.AsksFor e f) postModel.suppliedFields d.properties := by
  obtain ⟨out, hout⟩ : ∃ out,
      generate (.ofDatamodel postDatamodel) .standard (fun _ => none) ⟨"/work"⟩ = .ok out :=
    exists_ok_of_isOk (by decide +kernel)
  have hsupplied : postModel.suppliedFields.map Field.name = ["title", "tags", "authorId"] := by
    decide +kernel
  obtain ⟨c, tree, hrun, hinputs⟩ := generate_inputs hout
  obtain ⟨n, e, d, f, g, hn, -, -, hdto, ⟨hg, hholds⟩, -, hnames, hasks, hcontent, -⟩ :=
    hinputs postModel (List.mem_cons_of_mem _ List.mem_cons_self)
  have hpost : Name.ofIdentifier "Post" =
      .ok ⟨"Post", "post", "Post", "post", "posts", "Posts"⟩ := by decide +kernel
  obtain rfl := Except.ok.inj (hn.symm.trans hpost)
  have hpath : (NamedModel.mk postModel
      ⟨"Post", "post", "Post", "post", "posts", "Posts"⟩).dtoPath =
        ⟨"post/dtos/Create-Post.dto.ts"⟩ := by
    decide
  rw [hpath] at hg hholds hdto
  obtain ⟨g', hg', -, hcheck⟩ := hrun.exists_file_of_any ⟨"post/dtos/Create-Post.dto.ts"⟩
    (p := fun b => decide ("export class CreatePostDto \x7b\n" ++
      "\n".intercalate (b.properties.map propertyLines) ++ "\x7d\n" = postInputs))
    (by decide +kernel)
  cases hg.symm.trans hg'
  have hclass := of_decide_eq_true (hcheck _ hdto hholds)
  refine ⟨out, hout, hsupplied, c, tree, e, d, f, g, hrun, hg, hholds, ?_, hsupplied ▸ hnames,
    hasks⟩
  refine Artifact.infix_of_eq (banner ++ "\n\n" ++ d.imports.renderBlock) "" ?_
  have hheader : "export class CreatePostDto \x7b\n" =
      "export class Create" ++ "Post" ++ "Dto \x7b\n" := by decide
  rw [hcontent, ← hclass, hheader]
  simp only [String.append_assoc, String.append_empty]
  rfl

end Scaffold
