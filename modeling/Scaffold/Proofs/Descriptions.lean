import Scaffold.Proofs.Configurations
import Scaffold.Proofs.Omission
import Scaffold.Proofs.Properties

/-!
# OpenAPI descriptions are an addition

A description is one decorator in a line of its own above a property. Without
descriptions a file is what is left of it when these lines are taken out, together with
the two names that they need from the package of the decorators.

The comparison is made on the parts. `undescribed` takes the descriptions out of a file
whichever way it came about, and a run without descriptions makes exactly the undescribed
files, because nothing else in a property depends on the setting and because neither the
type of a field nor a check of values ever needs one of the two names. What this means for
the text holds for every file and is shown without a look at runs.
-/

namespace Scaffold

open Document (Environment Options)
open Naming (Name)
open Schema
open Text (not_mem_intercalate)
open TypeScript

namespace Artifact

variable {c : Context} {config : Config} {m : NamedModel}

/-- What a file imports to describe properties. -/
def descriptionImports : List Import :=
  [⟨openApiModule, "ApiProperty"⟩, ⟨openApiModule, "ApiPropertyOptional"⟩]

/-- Whether a decorator describes a property. -/
def isDescription (d : Decorator) : Bool :=
  d.required ∈ descriptionImports

/-- A property without its description. -/
def undescribedProperty (p : Property) : Property :=
  { p with decorators := p.decorators.filter fun d => !isDescription d }

def Entity.undescribed (e : Entity) : Entity :=
  { e with
    imports := e.imports.without descriptionImports
    properties := e.properties.map undescribedProperty
    relations := e.relations.map fun r =>
      { r with properties := r.properties.map undescribedProperty } }

def CreateDto.undescribed (d : CreateDto) : CreateDto :=
  { d with
    imports := d.imports.without descriptionImports
    properties := d.properties.map undescribedProperty }

def Body.undescribed : Body → Body
  | entity file => entity file.undescribed
  | createDto file => createDto file.undescribed
  | enumeration file => enumeration file
  | service file => service file
  | index file => index file

/-- A file without the descriptions in it. -/
def undescribed (a : Artifact) : Artifact :=
  ⟨a.path, a.body.undescribed⟩

/-- The lines in which a property is described. -/
def descriptionLines (p : Property) : List String :=
  (p.decorators.filter isDescription).map decoratorLine

theorem omits_decorators (decorators : List Decorator) :
    Omits ((decorators.filter isDescription).map decoratorLine)
      (String.join (decorators.map decoratorLine))
      (String.join ((decorators.filter fun d => !isDescription d).map decoratorLine)) := by
  induction decorators with
  | nil => exact .same _
  | cons d decorators ih =>
      rw [List.map_cons, String.join_cons]
      cases hd : isDescription d with
      | true =>
          rw [List.filter_cons_of_pos hd, List.filter_cons_of_neg (by rw [hd]; decide),
            List.map_cons]
          have happend := (Omits.piece (decoratorLine d)).append ih
          rwa [String.empty_append] at happend
      | false =>
          rw [List.filter_cons_of_neg (by rw [hd]; decide),
            List.filter_cons_of_pos (by rw [hd]; rfl), List.map_cons, String.join_cons]
          exact ih.behind _

theorem omits_property (p : Property) :
    Omits (descriptionLines p) p.text (undescribedProperty p).text := by
  rw [Property.text_eq, Property.text_eq, propertyLines, propertyLines]
  exact ((omits_decorators p.decorators).behind _).before _

theorem omits_classText (header : String) (statics : List String) (properties : List Property) :
    Omits (properties.flatMap descriptionLines)
      (classText header statics (properties.map Property.text))
      (classText header statics ((properties.map undescribedProperty).map Property.text)) := by
  rw [List.map_map]
  exact Omits.classText header statics fun p _ => omits_property p

theorem RelationsClass.text_eq (r : RelationsClass) (className : String) :
    r.text className =
      "\n" ++ classText ("export class " ++ r.name) [] (r.properties.map Property.text) ++
        ("\n" ++ "export type " ++ r.withRelationsType ++ " = " ++ className ++ " & " ++ r.name ++
          ";\n") := by
  simp only [RelationsClass.text, String.append_assoc]

theorem Entity.omits_closing (e : Entity) :
    Omits (((e.relations.map RelationsClass.properties).getD []).flatMap descriptionLines)
      e.closing e.undescribed.closing := by
  rw [Entity.closing, Entity.closing, Entity.undescribed]
  cases e.relations with
  | none => exact .same _
  | some r =>
      dsimp only [Option.map_some, Option.getD_some]
      rw [RelationsClass.text_eq, RelationsClass.text_eq]
      exact ((omits_classText _ [] r.properties).behind _).before _

/-- A file of which the descriptions can be taken out: its text is that of its table of
imports and a rest, and both lose what belongs to descriptions. -/
structure Body.LosesDescriptions (b : Body) : Prop where
  imports : b.undescribed.imports.table =
    (b.imports.table.map (Imports.strike descriptionImports)).filter fun line => line.2 ≠ []
  text : ∃ rest rest', b.text = Imports.blockText b.imports.table ++ rest ∧
    b.undescribed.text = Imports.blockText b.undescribed.imports.table ++ rest' ∧
    Omits (b.properties.flatMap descriptionLines) rest rest'

theorem losesDescriptions_entity (e : Entity) : (Body.entity e).LosesDescriptions where
  imports := Imports.table_without
  text := by
    refine ⟨e.opening ++ e.classWith e.properties ++ e.closing,
      e.undescribed.opening ++ e.undescribed.classWith e.undescribed.properties ++
        e.undescribed.closing, ?_, ?_, ?_⟩
    · rw [← Imports.renderBlock_eq]
      exact e.text_eq
    · rw [← Imports.renderBlock_eq]
      exact e.undescribed.text_eq
    · rw [Body.properties, List.flatMap_append]
      exact ((omits_classText _ _ e.properties).behind _).append e.omits_closing

theorem losesDescriptions_createDto (d : CreateDto) : (Body.createDto d).LosesDescriptions where
  imports := Imports.table_without
  text := by
    refine ⟨_, _, ?_, ?_, omits_classText ("export class " ++ d.className) [] d.properties⟩
    · rw [← Imports.renderBlock_eq]
      rfl
    · rw [← Imports.renderBlock_eq]
      rfl

/-! ## Descriptions of a run

Where descriptions are switched on, every property has exactly one, in front of its other
decorators. That it takes one line depends on what it quotes. These are fixed words and
spelled names, and neither have a line break in them. -/

/-- A line that holds a description and nothing else. -/
def IsDescriptionLine (line : String) : Prop :=
  ∃ name ∈ ["ApiProperty", "ApiPropertyOptional"], ∃ arguments : String,
    line = indentUnit ++ "@" ++ name ++ "(" ++ arguments ++ ")\n" ∧ '\n' ∉ arguments.toList

/-- A property with one description, which comes before all other decorators. -/
def IsDescribed (p : Property) : Prop :=
  ∃ d, p.decorators = d :: (undescribedProperty p).decorators ∧
    descriptionLines p = [decoratorLine d] ∧ IsDescriptionLine (decoratorLine d)

theorem isDescription_openApiDecorator (isOptional : Bool) (entries : List String) :
    isDescription (openApiDecorator isOptional entries) = true := by
  cases isOptional with
  | true => rfl
  | false => rfl

theorem isDescription_validators (t : FieldType) :
    ∀ d ∈ t.validators, isDescription d = false := by
  intro d hd
  have hother : ∀ i ∈ checkImports, i ∉ descriptionImports := by decide
  exact decide_eq_false (hother _ (required_validators t d hd))

theorem isDescriptionLine_openApiDecorator (isOptional : Bool) {entries : List String}
    (h : ∀ entry ∈ entries, '\n' ∉ entry.toList) :
    IsDescriptionLine (decoratorLine (openApiDecorator isOptional entries)) := by
  refine ⟨(openApiDecorator isOptional entries).name, ?_,
    ", ".intercalate ((openApiDecorator isOptional entries).arguments.map Argument.text), ?_, ?_⟩
  · cases isOptional with
    | true => exact List.mem_cons_of_mem _ List.mem_cons_self
    | false => exact List.mem_cons_self
  · rfl
  · refine not_mem_intercalate (by decide) fun part hpart => ?_
    obtain ⟨argument, hargument, rfl⟩ := List.mem_map.mp hpart
    rw [openApiDecorator, Decorator.withOptions] at hargument
    dsimp only at hargument
    split at hargument
    · cases hargument
    · rw [List.mem_singleton.mp hargument, Argument.text, String.toList_append,
        String.toList_append, List.mem_append, List.mem_append]
      rintro ((h' | h') | h')
      · revert h'; decide
      · exact not_mem_intercalate (by decide) h h'
      · revert h'; decide

theorem newline_not_mem_append {s t : String} (hs : '\n' ∉ s.toList) (ht : '\n' ∉ t.toList) :
    '\n' ∉ (s ++ t).toList := by
  rw [String.toList_append, List.mem_append]
  exact not_or.mpr ⟨hs, ht⟩

/-- An option that is only there in some cases. -/
theorem newline_not_mem_of_ite {b : Bool} {option : String} (h : '\n' ∉ option.toList) :
    ∀ entry ∈ (if b then [option] else []), '\n' ∉ entry.toList := by
  intro entry hentry
  split at hentry
  · rwa [List.mem_singleton.mp hentry]
  · cases hentry

theorem newline_not_mem_pascal {n : Name} (hn : n.WellSpelled) : '\n' ∉ n.pascal.toList := by
  intro h
  exact absurd (hn.pascal_alphanum _ h) (by decide)

theorem newline_not_mem_options_reference (h : c.WellNamed) {kind : Kind} {r : Reference}
    (hr : Reference.Of c kind r) : ∀ entry ∈ r.openApiOptions, '\n' ∉ entry.toList := by
  cases hr with
  | @scalar type => cases type <;> decide
  | object => decide
  | @enumeration n hn =>
      have hpascal := newline_not_mem_pascal (h.enums.wellSpelled hn)
      intro entry hentry
      rcases List.mem_cons.mp hentry with rfl | hentry
      · exact newline_not_mem_append (by decide) hpascal
      · rw [List.mem_singleton.mp hentry]
        exact newline_not_mem_append (newline_not_mem_append (by decide) hpascal) (by decide)
  | @entity r n hn hmodel =>
      have hpascal := newline_not_mem_pascal (h.models.wellSpelled hn)
      intro entry hentry
      rw [List.mem_singleton.mp hentry]
      exact newline_not_mem_append (by decide) (newline_not_mem_append hpascal (by decide))

theorem newline_not_mem_options (h : c.WellNamed) {model : String} {f : Field} {t : FieldType}
    (ht : FieldType.ofField c model f = .ok t) :
    ∀ entry ∈ t.openApiOptions, '\n' ∉ entry.toList := by
  intro entry hentry
  rcases List.mem_append.mp hentry with hentry | hentry
  · rcases List.mem_append.mp hentry with hentry | hentry
    · exact newline_not_mem_options_reference h ((ofField_eq_ok h).mp ht).1 entry hentry
    · exact newline_not_mem_of_ite (by decide) entry hentry
  · exact newline_not_mem_of_ite (by decide) entry hentry

/-- A property with a description in front of decorators of other kinds. -/
theorem isDescribed_of_decorators {p : Property} {isOptional : Bool} {entries : List String}
    {others : List Decorator} (hp : p.decorators = openApiDecorator isOptional entries :: others)
    (hentries : ∀ entry ∈ entries, '\n' ∉ entry.toList)
    (hothers : ∀ d ∈ others, isDescription d = false) : IsDescribed p := by
  have hfirst := isDescription_openApiDecorator isOptional entries
  refine ⟨_, ?_, ?_, isDescriptionLine_openApiDecorator isOptional hentries⟩
  · rw [undescribedProperty, hp, List.filter_cons_of_neg (by rw [hfirst]; decide),
      List.filter_eq_self.mpr fun d hd => by rw [hothers d hd]; rfl]
  · rw [descriptionLines, hp, List.filter_cons_of_pos hfirst,
      List.filter_eq_nil_iff.mpr fun d hd => by rw [hothers d hd]; decide]
    rfl

/-- The decorators of a property of a create-DTO apart from its description. -/
def dtoChecks (f : Field) (t : FieldType) : List Decorator :=
  (if isOptionalInput f then [⟨validatorModule, "IsOptional", []⟩] else []) ++ t.validators

theorem isDescription_dtoChecks (f : Field) (t : FieldType) :
    ∀ d ∈ dtoChecks f t, isDescription d = false := by
  intro d hd
  rcases List.mem_append.mp hd with hd | hd
  · split at hd
    · rw [List.mem_singleton.mp hd]
      rfl
    · cases hd
  · exact isDescription_validators t d hd

theorem dtoDecorators_described (hon : c.config.useSwagger = true) (f : Field) (t : FieldType) :
    dtoDecorators c f t =
      openApiDecorator (isOptionalInput f) t.openApiOptions :: dtoChecks f t := by
  rw [dtoDecorators, hon, dtoChecks]
  rfl

theorem dtoDecorators_plain (hoff : c.config.useSwagger = false) (f : Field) (t : FieldType) :
    dtoDecorators c f t = dtoChecks f t := by
  rw [dtoDecorators, hoff, dtoChecks]
  rfl

/-- The options with which an entity describes a property. -/
def entityOptions (t : TypedField) : List String :=
  t.type.openApiOptions ++ if t.field.isSystemManaged then ["readOnly: true"] else []

theorem entityDecorators_described (hon : c.config.useSwagger = true) (t : TypedField) :
    entityDecorators c t = [openApiDecorator t.type.nullable (entityOptions t)] := by
  rw [entityDecorators, hon]
  rfl

theorem entityDecorators_plain (hoff : c.config.useSwagger = false) (t : TypedField) :
    entityDecorators c t = [] := by
  rw [entityDecorators, hoff]
  rfl

theorem isDescribed_entityProperty (h : c.WellNamed) (hon : c.config.useSwagger = true)
    {model : String} {t : TypedField} (ht : FieldType.ofField c model t.field = .ok t.type) :
    IsDescribed (entityProperty c t) := by
  refine isDescribed_of_decorators (entityDecorators_described hon t) (fun entry hentry => ?_)
    (by simp)
  rcases List.mem_append.mp hentry with hentry | hentry
  · exact newline_not_mem_options h ht entry hentry
  · exact newline_not_mem_of_ite (by decide) entry hentry

theorem isDescribed_dtoProperty (h : c.WellNamed) (hon : c.config.useSwagger = true)
    {model : String} {f : Field} {t : FieldType} (ht : FieldType.ofField c model f = .ok t) :
    IsDescribed (dtoProperty c f t) :=
  isDescribed_of_decorators (dtoDecorators_described hon f t) (newline_not_mem_options h ht)
    (isDescription_dtoChecks f t)

theorem undescribed_entityProperty (hon : c.config.useSwagger = true)
    (hoff : config.useSwagger = false) (t : TypedField) :
    undescribedProperty (entityProperty c t) = entityProperty (c.withConfig config) t := by
  have hdecorators : (entityDecorators c t).filter (fun d => !isDescription d) =
      entityDecorators (c.withConfig config) t := by
    rw [entityDecorators_described hon, entityDecorators_plain (c := c.withConfig config) hoff]
    exact List.filter_cons_of_neg (by rw [isDescription_openApiDecorator]; decide)
  rw [undescribedProperty, entityProperty, hdecorators, entityProperty]

theorem undescribed_dtoProperty (hon : c.config.useSwagger = true)
    (hoff : config.useSwagger = false) (f : Field) (t : FieldType) :
    undescribedProperty (dtoProperty c f t) = dtoProperty (c.withConfig config) f t := by
  have hdecorators : (dtoDecorators c f t).filter (fun d => !isDescription d) =
      dtoDecorators (c.withConfig config) f t := by
    rw [dtoDecorators_described hon, dtoDecorators_plain (c := c.withConfig config) hoff,
      List.filter_cons_of_neg (by rw [isDescription_openApiDecorator]; decide)]
    exact List.filter_eq_self.mpr fun d hd => by rw [isDescription_dtoChecks f t d hd]; rfl
  rw [undescribedProperty, dtoProperty, hdecorators, dtoProperty]

/-! ## Imports of two runs

What a file imports depends on the types of its fields as well as on its decorators. A type
takes its name from a module of the tree, or the namespace from the client, so it never asks
for one of the two names that descriptions need. -/

theorem not_description_of_isRelative {i : Import} (h : Imports.isRelative i.module = true) :
    i ∉ descriptionImports := by
  have hpackages : ∀ i ∈ descriptionImports, Imports.isRelative i.module = false := by decide
  intro hi
  rw [hpackages i hi] at h
  cases h

theorem not_description_client (path : String) :
    Import.mk path clientNamespace ∉ descriptionImports := by
  have hnames : ∀ i ∈ descriptionImports, i.name ≠ clientNamespace := by decide
  intro hi
  exact hnames _ hi rfl

theorem isRelative_append {s : String} (t : String) (h : Imports.isRelative s = true) :
    Imports.isRelative (s ++ t) = true := by
  rw [Imports.isRelative, decide_eq_true_eq] at h ⊢
  rw [String.toList_append, List.head?_append, h]
  rfl

theorem not_description_entityImport? {t : FieldType} {i : Import}
    (h : entityImport? c m t = .ok (some i)) : i ∉ descriptionImports := by
  rcases entityImport?_eq_some.mp h with ⟨n, -, rfl⟩ | ⟨n, -, -, rfl⟩ | ⟨-, path, -, rfl⟩
  · exact not_description_of_isRelative (isRelative_append _ (by decide))
  · exact not_description_of_isRelative
      (isRelative_append _ (isRelative_append _ (isRelative_append _ (by decide))))
  · exact not_description_client path

theorem not_description_dtoImport? {t : FieldType} {i : Import}
    (h : dtoImport? c t = .ok (some i)) : i ∉ descriptionImports := by
  rcases dtoImport?_eq_some.mp h with ⟨n, -, rfl⟩ | ⟨-, path, -, rfl⟩
  · exact not_description_of_isRelative (isRelative_append _ (by decide))
  · exact not_description_client path

/-- Imports of types with those of the decorators of some properties. -/
theorem without_descriptionImports {types : List Import} (properties : List Property)
    (htypes : ∀ i ∈ types, i ∉ descriptionImports) :
    (Imports.mk (types ++ (properties.flatMap Property.decorators).map Decorator.required)).without
        descriptionImports =
      ⟨types ++ ((properties.map undescribedProperty).flatMap Property.decorators).map
        Decorator.required⟩ := by
  have hkept : types.filter (fun i => i ∉ descriptionImports) = types :=
    List.filter_eq_self.mpr fun i hi => decide_eq_true (htypes i hi)
  have hrest : (properties.flatMap Property.decorators).filter (fun d => !isDescription d) =
      (properties.map undescribedProperty).flatMap Property.decorators := by
    rw [List.filter_flatMap, List.flatMap_map]
    rfl
  rw [Imports.without, List.filter_append, hkept, List.filter_map, ← hrest]
  refine congrArg (fun decorators => Imports.mk (types ++ decorators.map Decorator.required))
    (List.filter_congr fun d _ => ?_)
  rw [isDescription, Function.comp_apply, decide_not]

theorem map_undescribed_entityProperty (hon : c.config.useSwagger = true)
    (hoff : config.useSwagger = false) (typed : List TypedField) :
    (typed.map (entityProperty c)).map undescribedProperty =
      typed.map (entityProperty (c.withConfig config)) := by
  rw [List.map_map]
  exact List.map_congr_left fun t _ => undescribed_entityProperty hon hoff t

theorem undescribed_entity (hon : c.config.useSwagger = true) (hoff : config.useSwagger = false)
    (hseparate : config.separateRelationFields = c.config.separateRelationFields) {e e' : Entity}
    (he : Entity.ofModel c m = .ok e) (he' : Entity.ofModel (c.withConfig config) m = .ok e') :
    e.undescribed = e' := by
  obtain ⟨key, typed, typeImports, htyped, himports, rfl, rfl⟩ := exists_parts_of_entity he he'
  have hproperties := map_undescribed_entityProperty hon hoff
  have htypes : ∀ i ∈ typeImports.filterMap id, i ∉ descriptionImports := by
    intro i hi
    obtain ⟨i', hi', rfl⟩ := List.mem_filterMap.mp hi
    obtain ⟨t, -, himport⟩ := (mem_of_mapM_eq_ok himports).mp hi'
    exact not_description_entityImport? himport
  have hlost := without_descriptionImports (typed.map (entityProperty c)) htypes
  rw [hproperties, List.flatMap_map, List.flatMap_map] at hlost
  have hseparate' : (c.withConfig config).config.separateRelationFields =
      c.config.separateRelationFields := hseparate
  simp only [Entity.undescribed, Entity.ofParts, Entity.mk.injEq, true_and, hproperties, hseparate']
  refine ⟨hlost, ?_⟩
  split
  · simp only [Option.map_some, hproperties]
  · rfl

theorem undescribed_createDto (hon : c.config.useSwagger = true) (hoff : config.useSwagger = false)
    {d d' : CreateDto} (hd : CreateDto.ofModel c m = .ok d)
    (hd' : CreateDto.ofModel (c.withConfig config) m = .ok d') : d.undescribed = d' := by
  obtain ⟨fields, hfields, rfl⟩ := createDto_ofModel_eq_ok.mp hd
  obtain ⟨fields', hfields', rfl⟩ := createDto_ofModel_eq_ok.mp hd'
  have hmade : fields.map (fun field => (field.1, undescribedProperty field.2)) = fields' := by
    rw [← List.map_id fields', ← forall₂_eq_iff_map_eq]
    refine forall₂_of_mapM_eq_ok hfields hfields' fun f _ field field' hfield hfield' => ?_
    obtain ⟨i, p⟩ := field
    obtain ⟨i', p'⟩ := field'
    obtain ⟨t, ht, hi, rfl⟩ := dtoField_eq_ok.mp hfield
    obtain ⟨t', ht', hi', rfl⟩ := dtoField_eq_ok.mp hfield'
    obtain rfl : t = t' := Except.ok.inj (ht.symm.trans ht')
    obtain rfl : i = i' := Except.ok.inj (hi.symm.trans hi')
    rw [undescribed_dtoProperty hon hoff]
    rfl
  have htypes : ∀ i ∈ fields.filterMap Prod.fst, i ∉ descriptionImports := by
    intro i hi
    obtain ⟨⟨_, p⟩, hfield, rfl⟩ := List.mem_filterMap.mp hi
    obtain ⟨f, -, hmake⟩ := (mem_of_mapM_eq_ok hfields).mp hfield
    obtain ⟨t, -, himport, -⟩ := dtoField_eq_ok.mp hmake
    exact not_description_dtoImport? himport
  have hlost := without_descriptionImports (fields.map Prod.snd) htypes
  rw [List.map_map, List.flatMap_map, List.flatMap_map] at hlost
  rw [← hmade]
  simp only [CreateDto.undescribed, CreateDto.ofParts, CreateDto.mk.injEq, List.map_map,
    List.filterMap_map, List.flatMap_map, true_and]
  exact ⟨hlost, rfl⟩

theorem isDescribed_entity (h : c.WellNamed) (hon : c.config.useSwagger = true) {e : Entity}
    (he : Entity.ofModel c m = .ok e) : ∀ p ∈ (Body.entity e).properties, IsDescribed p := by
  obtain ⟨key, -, -, typed, htyped, typeImports, -, rfl⟩ := entity_ofModel_eq_ok.mp he
  intro p hp
  rw [(properties_ofParts_perm key typed typeImports).mem_iff] at hp
  obtain ⟨t, ht, rfl⟩ := List.mem_map.mp hp
  exact isDescribed_entityProperty h hon ((mem_typedFields htyped).mp ht).2

theorem isDescribed_createDto (h : c.WellNamed) (hon : c.config.useSwagger = true) {d : CreateDto}
    (hd : CreateDto.ofModel c m = .ok d) : ∀ p ∈ (Body.createDto d).properties, IsDescribed p := by
  obtain ⟨fields, hfields, rfl⟩ := createDto_ofModel_eq_ok.mp hd
  intro p hp
  obtain ⟨⟨i, p⟩, hfield, rfl⟩ := List.mem_map.mp hp
  obtain ⟨f, -, hmake⟩ := (mem_of_mapM_eq_ok hfields).mp hfield
  obtain ⟨t, ht, -, rfl⟩ := dtoField_eq_ok.mp hmake
  exact isDescribed_dtoProperty h hon ht

theorem map_undescribed_project {tree tree' : List Artifact} (h : c.WellNamed)
    (hon : c.config.useSwagger = true) (hoff : config = { c.config with useSwagger := false })
    (htree : project c = .ok tree) (htree' : project (c.withConfig config) = .ok tree') :
    tree.map undescribed = tree' := by
  rw [← List.map_id tree', ← forall₂_eq_iff_map_eq]
  refine forall₂_project h (by rw [hoff]) htree htree' ?_ ?_ ?_
  · rintro ⟨path, body⟩ hentity hdto
    cases body with
    | entity file => exact absurd rfl hentity
    | createDto file => exact absurd rfl hdto
    | enumeration file => rfl
    | service file => rfl
    | index file => rfl
  · intro m _ e e' he he'
    rw [undescribed, Body.undescribed,
      undescribed_entity hon (by rw [hoff]) (by rw [hoff]) he he']
    rfl
  · intro m _ d d' hd hd'
    rw [undescribed, Body.undescribed, undescribed_createDto hon (by rw [hoff]) hd hd']
    rfl

theorem losesDescriptions_of_role (h : c.WellNamed) (hon : c.config.useSwagger = true)
    {a : Artifact} (ha : OfContext c a)
    (hrole : a.body.role = .entity ∨ a.body.role = .createDto) :
    a.body.LosesDescriptions ∧ ∀ p ∈ a.body.properties, IsDescribed p := by
  cases ha with
  | entity hm he => exact ⟨losesDescriptions_entity _, isDescribed_entity h hon he⟩
  | createDto hm hd => exact ⟨losesDescriptions_createDto _, isDescribed_createDto h hon hd⟩
  | enumeration hmem => simp [ofEnum, Body.role] at hrole
  | service hm hs => simp [Body.role] at hrole
  | modelIndex hm hindex => simp [modelIndex, Body.role] at hrole
  | enumIndex hindex hsome => simp [enumIndexOf, Body.role] at hrole

theorem toFile_undescribed (a : Artifact) :
    a.toFile.path = a.undescribed.toFile.path ∧ a.toFile.role = a.undescribed.toFile.role ∧
      (a.toFile.role ≠ .entity → a.toFile.role ≠ .createDto → a.toFile = a.undescribed.toFile) := by
  rw [toFile_path, toFile_path, toFile_role, toFile_role]
  obtain ⟨path, body⟩ := a
  cases body with
  | entity file => exact ⟨rfl, rfl, fun hrole _ => absurd rfl hrole⟩
  | createDto file => exact ⟨rfl, rfl, fun _ hrole => absurd rfl hrole⟩
  | enumeration file => exact ⟨rfl, rfl, fun _ _ => rfl⟩
  | service file => exact ⟨rfl, rfl, fun _ _ => rfl⟩
  | index file => exact ⟨rfl, rfl, fun _ _ => rfl⟩

end Artifact

/-- Descriptions are added to files and change nothing else: without them the same documents
are accepted, with the same warnings, and the files are those with descriptions less one
line for each property of an entity or a create-DTO and less the names imported for it. -/
theorem generate_descriptions (options : Options) (config : Config) (env : Environment)
    (workingDirectory : Path) :
    ((∃ out, generate options { config with useSwagger := true } env workingDirectory = .ok out) ↔
      ∃ out, generate options { config with useSwagger := false } env workingDirectory =
        .ok out) ∧
    ∀ out out', generate options { config with useSwagger := true } env workingDirectory =
        .ok out →
      generate options { config with useSwagger := false } env workingDirectory = .ok out' →
      out.warnings = out'.warnings ∧
      List.Forall₂ (fun f f' => f.path = f'.path ∧ f.role = f'.role ∧
        (f.role ≠ .entity → f.role ≠ .createDto → f = f')) out.files out'.files ∧
      ∃ c c' tree,
        Generates options { config with useSwagger := true } env workingDirectory c tree out ∧
        Generates options { config with useSwagger := false } env workingDirectory c'
          (tree.map Artifact.undescribed) out' ∧
        List.Forall₂ (fun f f' => ∃ a ∈ tree, f.Holds a ∧ f'.Holds a.undescribed)
          out.files out'.files ∧
        ∀ a ∈ tree, a.body.role = .entity ∨ a.body.role = .createDto →
          a.body.LosesDescriptions ∧ ∀ p ∈ a.body.properties, Artifact.IsDescribed p := by
  refine ⟨exists_generate_congr options _ _ env workingDirectory, fun out out' hout hout' => ?_⟩
  obtain ⟨c, tree, tree', hrun, hrun'⟩ := exists_generates_withConfig hout hout'
  have hon : c.config.useSwagger = true := by rw [hrun.config_eq]
  obtain rfl := Artifact.map_undescribed_project hrun.wellNamed hon (by rw [hrun.config_eq])
    hrun.project hrun'.project
  have hfiles : ∀ {r : GeneratedFile → GeneratedFile → Prop},
      (∀ a ∈ tree, r a.toFile a.undescribed.toFile) → List.Forall₂ r out.files out'.files := by
    intro r hr
    rw [hrun.files, hrun'.files, List.map_map, List.forall₂_map_left_iff,
      List.forall₂_map_right_iff]
    exact List.forall₂_same.mpr hr
  refine ⟨warnings_eq_of_generate hout hout', hfiles fun a _ => a.toFile_undescribed, c, _, tree,
    hrun, hrun', hfiles fun a ha => ⟨a, ha, a.holds_toFile, a.undescribed.holds_toFile⟩,
    fun a ha hrole => ?_⟩
  exact Artifact.losesDescriptions_of_role hrun.wellNamed hon (hrun.mem_tree_iff.mp ha) hrole

/-- A model whose entity imports nothing but the names for descriptions. -/
def accountDatamodel : Datamodel where
  enums := []
  models := [.plain "Account" [
    (Field.plain "id" (.scalar .int)).asId,
    (Field.plain "name" (.scalar .string)).asOptional]]

theorem generate_descriptions_accountDatamodel :
    ∃ out out', generate (.ofDatamodel accountDatamodel)
        { Config.standard with useSwagger := true } (fun _ => none) ⟨"/work"⟩ = .ok out ∧
      generate (.ofDatamodel accountDatamodel) { Config.standard with useSwagger := false }
        (fun _ => none) ⟨"/work"⟩ = .ok out' ∧
      out.warnings = out'.warnings ∧
      ∃ tree : List Artifact, out.files = tree.map Artifact.toFile ∧
        out'.files = (tree.map Artifact.undescribed).map Artifact.toFile ∧
        ∃ a ∈ tree, a.body.LosesDescriptions ∧
          a.body.imports.table = [("@nestjs/swagger", ["ApiProperty", "ApiPropertyOptional"])] ∧
          a.undescribed.body.imports.table = [] := by
  obtain ⟨haccepted, hsame⟩ :=
    generate_descriptions (.ofDatamodel accountDatamodel) .standard (fun _ => none) ⟨"/work"⟩
  obtain ⟨out, hout⟩ : ∃ out, generate (.ofDatamodel accountDatamodel)
      { Config.standard with useSwagger := true } (fun _ => none) ⟨"/work"⟩ = .ok out :=
    exists_ok_of_isOk (by decide +kernel)
  obtain ⟨out', hout'⟩ := haccepted.mp ⟨out, hout⟩
  obtain ⟨hwarnings, -, c, c', tree, hrun, hrun', -, hlose⟩ := hsame out out' hout hout'
  obtain ⟨a, ha, hcheck⟩ := hrun.exists_of_any (p := fun a =>
    decide (a.body.role = .entity) && decide (a.body.imports.table =
      [("@nestjs/swagger", ["ApiProperty", "ApiPropertyOptional"])])) (by decide +kernel)
  rw [Bool.and_eq_true, decide_eq_true_eq, decide_eq_true_eq] at hcheck
  obtain ⟨hrole, htable⟩ := hcheck
  obtain ⟨hloses, -⟩ := hlose a ha (.inl hrole)
  refine ⟨out, out', hout, hout', hwarnings, tree, hrun.files, hrun'.files, a, ha, hloses, htable,
    ?_⟩
  have himports := hloses.imports
  rw [htable] at himports
  exact himports.trans (by decide)

end Scaffold
