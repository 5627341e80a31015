import Scaffold.Proofs.Descriptions
import Scaffold.Proofs.Inputs

/-!
# What a property says of its field

That a field is a list, that null is a value of it, that it may be left out: each of these shows
in several places of a property. The text of the type, the entries of the OpenAPI description,
the mark behind the name and the checks of values come about independently of one another, and
an entity and a create-DTO do not mean the same by a field that may be left out.

Every place is traced back to the field, and the places agree because of that. In the text of a
type this is a matter of characters. The base of a type holds neither a bracket nor a bar, so
these stand for a list and for null wherever they are found. Among the entries of a description
the flags differ from what describes single values by their first letters.
-/

namespace Scaffold

open Document (Environment Options)
open Naming (Name)
open Schema
open TypeScript

namespace TypeScript

theorem TypeExpr.ends_in_null_iff {t : TypeExpr} (hbase : '|' ∉ t.base.toList) :
    " | null".toList <:+ t.text.toList ↔ t.nullable = true := by
  rw [TypeExpr.text]
  cases t.nullable with
  | true => exact iff_of_true ⟨_, (String.toList_append ..).symm⟩ rfl
  | false =>
      refine iff_of_false (fun hnull => ?_) Bool.false_ne_true
      have hbar : '|' ∈ (t.base ++ (if t.isList then "[]" else "") ++ "").toList :=
        hnull.subset (by decide)
      rw [String.append_empty, String.toList_append, List.mem_append] at hbar
      refine hbar.elim hbase fun hbar => ?_
      split at hbar
      · revert hbar; decide
      · cases hbar

theorem TypeExpr.has_brackets_iff {t : TypeExpr} (hbase : '[' ∉ t.base.toList) :
    "[]".toList <:+: t.text.toList ↔ t.isList = true := by
  rw [TypeExpr.text]
  cases t.isList with
  | true =>
      refine iff_of_true ?_ rfl
      rw [if_pos rfl, String.toList_append, String.toList_append]
      exact List.infix_append _ _ _
  | false =>
      refine iff_of_false (fun hlist => ?_) Bool.false_ne_true
      have hbracket : '[' ∈ (t.base ++ "" ++ if t.nullable then " | null" else "").toList :=
        hlist.subset (by decide)
      rw [String.append_empty, String.toList_append, List.mem_append] at hbracket
      refine hbracket.elim hbase fun hbracket => ?_
      split at hbracket
      · revert hbracket; decide
      · cases hbracket

/-- The options that an argument of a decorator lists. -/
def Argument.entries : Argument → List String
  | .expression _ => []
  | .options entries => entries

/-- The options of a decorator. -/
def Decorator.entries (d : Decorator) : List String :=
  d.arguments.flatMap Argument.entries

theorem Decorator.entries_withOptions (module name : String) (entries : List String) :
    (Decorator.withOptions module name entries).entries = entries := by
  cases entries <;> simp [withOptions, Decorator.entries, Argument.entries]

end TypeScript

namespace Artifact

variable {c : Context} {m : NamedModel}

/-- The entries of the OpenAPI description of a property. -/
def descriptionEntries (p : Property) : List String :=
  (p.decorators.filter isDescription).flatMap Decorator.entries

/-- A property that is described as one that may be left out. -/
def IsDescribedOptional (p : Property) : Prop :=
  ∃ d ∈ p.decorators, d.required = ⟨openApiModule, "ApiPropertyOptional"⟩

/-- The options that describe one value are told from others by their first letters. -/
theorem head_of_mem_openApiOptions (r : Reference) :
    ∀ entry ∈ r.openApiOptions, entry.toList.head? ∈ [some 't', some 'f', some 'e'] := by
  intro entry hentry
  cases r with
  | scalar type =>
      revert entry
      cases type <;> decide
  | enumeration n =>
      rcases List.mem_cons.mp hentry with rfl | hentry
      · simp
      · rw [List.mem_singleton.mp hentry]
        simp
  | entity n =>
      rw [List.mem_singleton.mp hentry]
      simp
  | object =>
      rw [List.mem_singleton.mp hentry]
      decide

/-- The options with other first letters are those for lists and for null. -/
theorem FieldType.mem_openApiOptions_iff {t : FieldType} {flag : String}
    (hflag : flag.toList.head? ∉ [some 't', some 'f', some 'e']) :
    flag ∈ t.openApiOptions ↔
      (t.isList = true ∧ flag = "isArray: true") ∨
        (t.nullable = true ∧ flag = "nullable: true") := by
  have hother : flag ∉ t.reference.openApiOptions :=
    fun hmem => hflag (head_of_mem_openApiOptions t.reference flag hmem)
  rw [FieldType.openApiOptions, List.mem_append, List.mem_append]
  cases t.isList <;> cases t.nullable <;> simp [hother]

section Description

variable {p : Property} {described isOptional : Bool} {entries : List String}
  {others : List Decorator}

/-- A property may have a description in front of decorators of other kinds. -/
theorem descriptionEntries_eq
    (hp : p.decorators =
      (if described then [openApiDecorator isOptional entries] else []) ++ others)
    (hothers : ∀ d ∈ others, isDescription d = false) :
    descriptionEntries p = if described then entries else [] := by
  have hrest : others.filter isDescription = [] :=
    List.filter_eq_nil_iff.mpr fun d hd => by rw [hothers d hd]; decide
  rw [descriptionEntries, hp, List.filter_append, hrest, List.append_nil]
  cases described with
  | false => rfl
  | true =>
      rw [if_pos rfl, List.filter_cons_of_pos (isDescription_openApiDecorator _ _), if_pos rfl,
        List.filter_nil, List.flatMap_singleton]
      exact Decorator.entries_withOptions _ _ entries

theorem isDescribedOptional_iff
    (hp : p.decorators =
      (if described then [openApiDecorator isOptional entries] else []) ++ others)
    (hothers : ∀ d ∈ others, isDescription d = false) :
    IsDescribedOptional p ↔ described = true ∧ isOptional = true := by
  rw [IsDescribedOptional, hp]
  constructor
  · rintro ⟨d, hd, hrequired⟩
    rcases List.mem_append.mp hd with hd | hd
    · cases described with
      | false => cases hd
      | true =>
          refine ⟨rfl, ?_⟩
          rw [List.mem_singleton.mp hd] at hrequired
          cases isOptional with
          | true => rfl
          | false =>
              have hname : "ApiProperty" = "ApiPropertyOptional" :=
                (Import.mk.inj hrequired).2
              exact absurd hname (by decide)
    · have hdescription : isDescription d = true := by
        rw [isDescription, hrequired]
        decide
      rw [hothers d hd] at hdescription
      cases hdescription
  · rintro ⟨rfl, rfl⟩
    exact ⟨_, List.mem_append_left _ (List.mem_singleton_self _), rfl⟩

end Description

theorem decorators_entityProperty (c : Context) (t : TypedField) :
    (entityProperty c t).decorators =
      (if c.config.useSwagger then [openApiDecorator t.type.nullable (entityOptions t)] else []) ++
        [] :=
  (List.append_nil _).symm

theorem decorators_dtoProperty (c : Context) (f : Field) (t : FieldType) :
    (dtoProperty c f t).decorators =
      (if c.config.useSwagger then [openApiDecorator (isOptionalInput f) t.openApiOptions]
        else []) ++ dtoChecks f t :=
  List.append_assoc _ _ _

/-! ## Properties

Each structure has one part for a facet and a place where it shows. Without descriptions there
are no entries in which a facet could show, which is what `described` stands for; the type, the
mark behind the name and the checks are there in any case. -/

/-- A property whose type and whose description say what a field is. -/
structure Renders (described : Bool) (f : Field) (p : Property) : Prop where
  name : p.name = f.name
  nullable : " | null".toList <:+ p.type.text.toList ↔ f.required = false
  nullable_described :
    "nullable: true" ∈ descriptionEntries p ↔ described = true ∧ f.required = false
  list : "[]".toList <:+: p.type.text.toList ↔ f.isList = true
  list_described : "isArray: true" ∈ descriptionEntries p ↔ described = true ∧ f.isList = true
  text : p.text = commentAbove f.documentation indentUnit ++
    String.join (p.decorators.map decoratorLine) ++
    (indentUnit ++ f.name ++ (if p.isOptional then "?" else "") ++ ": " ++ p.type.text ++ ";\n")

/-- In an entity the fields that may be left out are those with null as a value. -/
structure RendersRecord (described : Bool) (f : Field) (p : Property) : Prop
    extends Renders described f p where
  isOptional : p.isOptional = true ↔ f.required = false
  optional_described : IsDescribedOptional p ↔ described = true ∧ f.required = false
  readOnly_described : "readOnly: true" ∈ descriptionEntries p ↔ described = true ∧ f.Maintained

/-- In a create-DTO there are checks of the values besides. -/
structure RendersInput (described : Bool) (f : Field) (p : Property) : Prop
    extends Renders described f p where
  isOptional : p.isOptional = true ↔ f.MayBeOmitted
  optional_checked : (∃ d ∈ p.decorators, d.text = "@IsOptional()") ↔ p.isOptional = true
  optional_described : IsDescribedOptional p ↔ described = true ∧ p.isOptional = true
  list_checked : (∃ d ∈ p.decorators, d.text = "@IsArray()") ↔ f.isList = true
  items_checked : ∀ d ∈ p.decorators, d.module = validatorModule → d.text ≠ "@IsOptional()" →
    d.text ≠ "@IsArray()" → (.options ["each: true"] ∈ d.arguments ↔ f.isList = true)

theorem nullable_ofField {model : String} {f : Field} {t : FieldType}
    (ht : FieldType.ofField c model f = .ok t) : t.nullable = true ↔ f.required = false := by
  obtain ⟨r, -, rfl⟩ := map_eq_ok.mp ht
  rw [Bool.not_eq_true']

theorem isList_ofField {model : String} {f : Field} {t : FieldType}
    (ht : FieldType.ofField c model f = .ok t) : t.isList = f.isList := by
  obtain ⟨r, -, rfl⟩ := map_eq_ok.mp ht
  rfl

theorem renders_of_typeExpr (h : c.WellNamed) {model : String} {f : Field} {t : FieldType}
    (ht : FieldType.ofField c model f = .ok t) {p : Property} (hname : p.name = f.name)
    (htype : p.type = t.typeExpr) (hdocumentation : p.documentation = f.documentation)
    (hentries : ∀ flag, flag ≠ "readOnly: true" →
      (flag ∈ descriptionEntries p ↔ c.config.useSwagger = true ∧ flag ∈ t.openApiOptions)) :
    Renders c.config.useSwagger f p := by
  have hreference := ((ofField_eq_ok h).mp ht).1
  refine ⟨hname, ?_, ?_, ?_, ?_, ?_⟩
  · rw [htype, TypeExpr.ends_in_null_iff (not_mem_base h hreference .null)]
    exact nullable_ofField ht
  · rw [hentries _ (by decide), FieldType.mem_openApiOptions_iff (by decide),
      ← nullable_ofField ht]
    simp
  · rw [htype, TypeExpr.has_brackets_iff (not_mem_base h hreference .list), ← isList_ofField ht]
    rfl
  · rw [hentries _ (by decide), FieldType.mem_openApiOptions_iff (by decide), ← isList_ofField ht]
    simp
  · rw [Property.text_eq, propertyLines, propertyLine, hname, hdocumentation]

theorem rendersRecord_entityProperty (h : c.WellNamed) {model : String} {f : Field}
    {t : FieldType} (ht : FieldType.ofField c model f = .ok t) :
    RendersRecord c.config.useSwagger f (entityProperty c ⟨f, t⟩) := by
  have hdecorators := decorators_entityProperty c ⟨f, t⟩
  have hentries := descriptionEntries_eq hdecorators nofun
  refine {
    toRenders := renders_of_typeExpr h ht rfl rfl rfl fun flag hflag => ?_
    isOptional := nullable_ofField ht
    optional_described := (isDescribedOptional_iff hdecorators nofun).trans
      (and_congr_right fun _ => nullable_ofField ht)
    readOnly_described := ?_ }
  · rw [hentries, entityOptions]
    cases c.config.useSwagger <;> cases f.isSystemManaged <;> simp [hflag]
  · have hother : "readOnly: true" ∉ t.openApiOptions := by
      rw [FieldType.mem_openApiOptions_iff (by decide)]
      simp
    rw [hentries, entityOptions, ← Field.isSystemManaged_iff]
    cases c.config.useSwagger <;> cases f.isSystemManaged <;> simp [hother]

/-- A list is checked as such, and nothing else is. -/
theorem exists_isArray_iff {f : Field} {t : FieldType} :
    (∃ d ∈ dtoDecorators c f t, d.text = "@IsArray()") ↔ t.isList = true := by
  constructor
  · rintro ⟨d, hd, htext⟩
    have hname : d.name = "IsArray" :=
      name_eq_of_text_eq ⟨validatorModule, "IsArray", []⟩ htext
        (required_dtoDecorators f t d hd) (by decide)
    cases isInputDecorator_of_mem hd with
    | description => exact absurd (hname ▸ name_openApiDecorator _ _) (by decide)
    | isOptional => exact absurd hname (by decide)
    | isArray h => exact h
    | value h => exact absurd (hname ▸ h.name_mem) (by decide)
  · intro h
    refine ⟨⟨validatorModule, "IsArray", []⟩, ?_, by decide⟩
    rw [dtoDecorators, FieldType.validators, FieldType.listCheck, if_pos h]
    simp

theorem each_mem_eachOption {t : FieldType} :
    Argument.options ["each: true"] ∈ t.eachOption ↔ t.isList = true := by
  rw [FieldType.eachOption]
  cases t.isList <;> simp

/-- Checks of values look at the items exactly where there are some. -/
theorem each_mem_arguments {f : Field} {t : FieldType} {d : Decorator}
    (hd : d ∈ dtoDecorators c f t) (hmodule : d.module = validatorModule)
    (hoptional : d.text ≠ "@IsOptional()") (hlist : d.text ≠ "@IsArray()") :
    .options ["each: true"] ∈ d.arguments ↔ t.isList = true := by
  cases isInputDecorator_of_mem hd with
  | description =>
      have hopenApi : openApiModule = validatorModule := hmodule
      exact absurd hopenApi (by decide)
  | isOptional => exact absurd rfl hoptional
  | isArray => exact absurd rfl hlist
  | value h =>
      cases h with
      | scalar => exact each_mem_eachOption
      | enumeration n =>
          rw [← each_mem_eachOption, List.mem_cons]
          simp
      | time => exact absurd hmodule (by decide)

theorem rendersInput_dtoProperty (h : c.WellNamed) {model : String} {f : Field} {t : FieldType}
    (ht : FieldType.ofField c model f = .ok t) :
    RendersInput c.config.useSwagger f (dtoProperty c f t) := by
  have hdecorators := decorators_dtoProperty c f t
  have hothers := isDescription_dtoChecks f t
  have hlist : t.isList = true ↔ f.isList = true := by
    rw [isList_ofField ht]
  refine {
    toRenders := renders_of_typeExpr h ht rfl rfl rfl fun flag _ => ?_
    isOptional := isOptionalInput_iff
    optional_checked := exists_isOptional_iff
    optional_described := isDescribedOptional_iff hdecorators hothers
    list_checked := exists_isArray_iff.trans hlist
    items_checked := fun d hd hmodule hoptional hisArray =>
      (each_mem_arguments hd hmodule hoptional hisArray).trans hlist }
  rw [descriptionEntries_eq hdecorators hothers]
  cases c.config.useSwagger <;> simp

theorem rendersRecord_of_mem (h : c.WellNamed) {e : Entity} (he : Entity.ofModel c m = .ok e)
    {p : Property} (hp : p ∈ (Body.entity e).properties) :
    ∃ f ∈ m.model.fields, RendersRecord c.config.useSwagger f p := by
  obtain ⟨key, -, -, typed, htyped, typeImports, -, rfl⟩ := entity_ofModel_eq_ok.mp he
  rw [(properties_ofParts_perm key typed typeImports).mem_iff] at hp
  obtain ⟨t, ht, rfl⟩ := List.mem_map.mp hp
  obtain ⟨hf, htype⟩ := (mem_typedFields htyped).mp ht
  exact ⟨t.field, hf, rendersRecord_entityProperty h htype⟩

theorem rendersInput_of_mem (h : c.WellNamed) {d : CreateDto} (hd : CreateDto.ofModel c m = .ok d)
    {p : Property} (hp : p ∈ d.properties) :
    ∃ f ∈ m.model.suppliedFields, RendersInput c.config.useSwagger f p := by
  obtain ⟨fields, hfields, rfl⟩ := createDto_ofModel_eq_ok.mp hd
  rw [NamedModel.createFields_eq] at hfields
  obtain ⟨⟨i, p⟩, hfield, rfl⟩ := List.mem_map.mp hp
  obtain ⟨f, hf, hmake⟩ := (mem_of_mapM_eq_ok hfields).mp hfield
  obtain ⟨t, ht, -, rfl⟩ := dtoField_eq_ok.mp hmake
  exact ⟨f, hf, rendersInput_dtoProperty h ht⟩

/-- A create-DTO has nothing under the name of a field that callers never supply. -/
theorem name_ne_of_maintained (h : c.WellNamed) (hnodup : (m.model.fields.map Field.name).Nodup)
    {d : CreateDto} (hd : CreateDto.ofModel c m = .ok d) {f : Field} (hf : f ∈ m.model.fields)
    (hmaintained : f.Maintained) : ∀ p ∈ d.properties, p.name ≠ f.name := by
  intro p hp hname
  obtain ⟨g, hg, hrenders⟩ := rendersInput_of_mem h hd hp
  obtain ⟨hgmem, -, hsupplied⟩ := Model.mem_suppliedFields.mp hg
  obtain rfl := List.inj_on_of_nodup_map hnodup hgmem hf (hrenders.name.symm.trans hname)
  exact hsupplied hmaintained

end Artifact

/-- A property of a run, by its text and the role of its file. -/
theorem Generates.exists_property {options : Options} {config : Config} {env : Environment}
    {workingDirectory : Path} {c : Context} {tree : List Artifact} {out : Output}
    (h : Generates options config env workingDirectory c tree out) {role : Artifact.Role}
    {text : String}
    (hany : ((Context.ofOptions options config env workingDirectory).bind fun c =>
      (Artifact.project c).map fun tree => tree.any fun a => decide (a.body.role = role) &&
        a.body.properties.any fun p => decide (p.text = text)).toOption = some true) :
    ∃ a ∈ tree, a.body.role = role ∧ ∃ p ∈ a.body.properties, p.text = text := by
  obtain ⟨a, ha, hcheck⟩ := h.exists_of_any hany
  rw [Bool.and_eq_true, decide_eq_true_eq, List.any_eq_true] at hcheck
  obtain ⟨hrole, p, hp, htext⟩ := hcheck
  exact ⟨a, ha, hrole, p, hp, of_decide_eq_true htext⟩

/-- In every property of an entity or a create-DTO of a run all places agree in what they say
of its field: whether null is a value, whether it is a list, whether it may be left out, and
in an entity whether callers never supply it, in which case the create-DTO of the same model
does not ask for it. -/
theorem generate_facets {options : Options} {config : Config} {env : Environment}
    {workingDirectory : Path} {out : Output}
    (h : generate options config env workingDirectory = .ok out) :
    ∃ c tree, Generates options config env workingDirectory c tree out ∧ ∀ a ∈ tree,
      (∃ file, out.HandsOver a file ∧ ∀ p ∈ a.body.properties,
        p.text.toList <:+: a.body.text.toList ∧ file.Contains p.text) ∧
      (∀ e, a.body = .entity e → ∃ model ∈ options.datamodel.models, ∃ n d,
        Name.ofIdentifier model.name = .ok n ∧ a.path = (NamedModel.mk model n).entityPath ∧
        ⟨(NamedModel.mk model n).dtoPath, .createDto d⟩ ∈ tree ∧
        ∀ p ∈ a.body.properties, ∃ f ∈ model.fields,
          Artifact.RendersRecord config.useSwagger f p ∧
          (f.Maintained → ∀ q ∈ d.properties, q.name ≠ f.name)) ∧
      ∀ d, a.body = .createDto d → ∃ model ∈ options.datamodel.models, ∃ n,
        Name.ofIdentifier model.name = .ok n ∧ a.path = (NamedModel.mk model n).dtoPath ∧
        ∀ p ∈ a.body.properties, ∃ f ∈ model.suppliedFields,
          Artifact.RendersInput config.useSwagger f p := by
  obtain ⟨c, tree, hrun⟩ := exists_generates h
  have hnamed : ∀ {m : NamedModel}, m ∈ c.namedModels →
      m.model ∈ options.datamodel.models ∧ Name.ofIdentifier m.model.name = .ok m.names := by
    intro m hm
    rw [← hrun.datamodel_eq]
    exact hrun.wellNamed.mem_namedModels.mp hm
  refine ⟨c, tree, hrun, fun a ha => ⟨?_, fun e hbody => ?_, fun d hbody => ?_⟩⟩
  · obtain ⟨file, hfile⟩ := hrun.exists_file ha
    refine ⟨file, hfile, fun p hp => ?_⟩
    have hpart := Artifact.Body.property_infix_text hp
    exact ⟨hpart, hfile.holds.contains hpart⟩
  · cases hrun.mem_tree_iff.mp ha with
    | @entity m e' hm he =>
        obtain ⟨hmodel, hn⟩ := hnamed hm
        obtain ⟨-, d, -, -, hd, -, -, hdto, -⟩ :=
          Artifact.exists_modelFiles hrun.wellNamed hrun.project hm
        have hsound := (Datamodel.validate_eq_ok_iff.mp hrun.valid).models m.model hmodel
        refine ⟨m.model, hmodel, m.names, d, hn, rfl, hdto, fun p hp => ?_⟩
        obtain ⟨f, hf, hrenders⟩ := Artifact.rendersRecord_of_mem hrun.wellNamed he hp
        rw [hrun.config_eq] at hrenders
        exact ⟨f, hf, hrenders, fun hmaintained =>
          Artifact.name_ne_of_maintained hrun.wellNamed hsound.fieldNames hd hf hmaintained⟩
    | enumeration hmem => cases hbody
    | createDto hm hd => cases hbody
    | service hm hs => cases hbody
    | modelIndex hm hindex => cases hbody
    | enumIndex hindex hsome => cases hbody
  · cases hrun.mem_tree_iff.mp ha with
    | @createDto m d' hm hd =>
        obtain ⟨hmodel, hn⟩ := hnamed hm
        refine ⟨m.model, hmodel, m.names, hn, rfl, fun p hp => ?_⟩
        obtain ⟨f, hf, hrenders⟩ := Artifact.rendersInput_of_mem hrun.wellNamed hd hp
        rw [hrun.config_eq] at hrenders
        exact ⟨f, hf, hrenders⟩
    | enumeration hmem => cases hbody
    | entity hm he => cases hbody
    | service hm hs => cases hbody
    | modelIndex hm hindex => cases hbody
    | enumIndex hindex hsome => cases hbody

theorem generate_facets_postDatamodel :
    ∃ out, generate (.ofDatamodel postDatamodel) .standard (fun _ => none) ⟨"/work"⟩ = .ok out ∧
      ∃ c tree, Generates (.ofDatamodel postDatamodel) .standard (fun _ => none) ⟨"/work"⟩ c tree
          out ∧
        (∃ a ∈ tree, a.body.role = .entity ∧ ∃ p ∈ a.body.properties, p.text =
            "    @ApiPropertyOptional(\x7b type: Number, nullable: true \x7d)\n" ++
              "    authorId?: number | null;\n" ∧
          (∃ file, out.HandsOver a file ∧ file.Contains p.text) ∧
          ∃ f, Artifact.RendersRecord true f p) ∧
        ∃ a ∈ tree, a.body.role = .createDto ∧ ∃ p ∈ a.body.properties, p.text =
            "    @ApiProperty(\x7b type: String, isArray: true \x7d)\n    @IsArray()\n" ++
              "    @IsString(\x7b each: true \x7d)\n    tags: string[];\n" ∧
          (∃ file, out.HandsOver a file ∧ file.Contains p.text) ∧
          ∃ f, Artifact.RendersInput true f p := by
  obtain ⟨out, hout⟩ : ∃ out,
      generate (.ofDatamodel postDatamodel) .standard (fun _ => none) ⟨"/work"⟩ = .ok out :=
    exists_ok_of_isOk (by decide +kernel)
  obtain ⟨c, tree, hrun, hfacets⟩ := generate_facets hout
  have hentity : ∃ a ∈ tree, a.body.role = .entity ∧ ∃ p ∈ a.body.properties, p.text =
      "    @ApiPropertyOptional(\x7b type: Number, nullable: true \x7d)\n" ++
        "    authorId?: number | null;\n" :=
    hrun.exists_property (by decide +kernel)
  have hdto : ∃ a ∈ tree, a.body.role = .createDto ∧ ∃ p ∈ a.body.properties, p.text =
      "    @ApiProperty(\x7b type: String, isArray: true \x7d)\n    @IsArray()\n" ++
        "    @IsString(\x7b each: true \x7d)\n    tags: string[];\n" :=
    hrun.exists_property (by decide +kernel)
  have hwritten : ∀ a ∈ tree, ∀ p ∈ a.body.properties,
      ∃ file, out.HandsOver a file ∧ file.Contains p.text := fun a ha p hp =>
    (hfacets a ha).1.imp fun file hfile => ⟨hfile.1, (hfile.2 p hp).2⟩
  refine ⟨out, hout, c, tree, hrun, ?_, ?_⟩
  · obtain ⟨a, ha, hrole, p, hp, htext⟩ := hentity
    have hfile := hwritten a ha p hp
    cases hbody : a.body with
    | entity e =>
        obtain ⟨_, _, _, _, _, _, _, hproperties⟩ := (hfacets a ha).2.1 e hbody
        obtain ⟨f, -, hrenders, -⟩ := hproperties p hp
        exact ⟨a, ha, hrole, p, hp, htext, hfile, f, hrenders⟩
    | _ =>
        rw [hbody] at hrole
        cases hrole
  · obtain ⟨a, ha, hrole, p, hp, htext⟩ := hdto
    have hfile := hwritten a ha p hp
    cases hbody : a.body with
    | createDto d =>
        obtain ⟨_, _, _, _, _, hproperties⟩ := (hfacets a ha).2.2 d hbody
        obtain ⟨f, -, hrenders⟩ := hproperties p hp
        exact ⟨a, ha, hrole, p, hp, htext, hfile, f, hrenders⟩
    | _ =>
        rw [hbody] at hrole
        cases hrole

end Scaffold
