import Mathlib.Data.List.Lattice
import Mathlib.Data.List.Nodup
import Scaffold.Proofs.Ascending
import Scaffold.Proofs.Converters

/-!
# What files import and declare

A file shows other files two things: the names it declares and the names it takes
from modules. Both are read off its parts here, and `header_infix_text` says that a
name that counts as declared stands behind `export` in the text as well.

The imports of a file are asked for by its properties and their decorators one by
one. What such a request can be is a short list, and `Origin` is that list: packages,
the client of the database, enums, the class of another model, and in a service the
other files of its own model. Whoever reasons about an arbitrary import goes through
the constructors and never through the converters.
-/

namespace Scaffold.TypeScript.Imports

theorem mem_names {imports : Imports} {module name : String} :
    name ∈ imports.names module ↔ ⟨module, name⟩ ∈ imports.entries := by
  rw [names, Text.mem_ascending, List.mem_map]
  constructor
  · rintro ⟨i, hi, rfl⟩
    obtain ⟨hi, hmodule⟩ := List.mem_filter.mp hi
    rw [decide_eq_true_eq] at hmodule
    rwa [← hmodule]
  · intro hi
    exact ⟨⟨module, name⟩, List.mem_filter.mpr ⟨hi, by simp⟩, rfl⟩

theorem mem_modules {imports : Imports} {module : String} :
    module ∈ imports.modules ↔ ∃ i ∈ imports.entries, i.module = module := by
  simp only [modules, List.mem_append, List.mem_filter, Text.mem_ascending, List.mem_map]
  constructor
  · rintro (⟨h, -⟩ | ⟨h, -⟩)
    · exact h
    · exact h
  · intro h
    cases hrelative : isRelative module with
    | true => exact .inr ⟨h, rfl⟩
    | false => exact .inl ⟨h, rfl⟩

/-- The names that the lines of imports bind, line by line. -/
def boundNames (imports : Imports) : List String :=
  imports.modules.flatMap imports.names

theorem mem_boundNames {imports : Imports} {name : String} :
    name ∈ imports.boundNames ↔ ∃ i ∈ imports.entries, i.name = name := by
  rw [boundNames, List.mem_flatMap]
  constructor
  · rintro ⟨module, -, hname⟩
    exact ⟨⟨module, name⟩, mem_names.mp hname, rfl⟩
  · rintro ⟨i, hi, rfl⟩
    exact ⟨i.module, mem_modules.mpr ⟨i, hi, rfl⟩, mem_names.mpr hi⟩

theorem nodup_modules (imports : Imports) : imports.modules.Nodup := by
  have hall := Text.nodup_ascending (imports.entries.map Import.module)
  refine List.nodup_append.mpr ⟨hall.filter _, hall.filter _, ?_⟩
  rintro module hpackage _ htree rfl
  have hnot := (List.mem_filter.mp hpackage).2
  rw [(List.mem_filter.mp htree).2] at hnot
  cases hnot

/-- No name is bound twice exactly if each comes from one module. -/
theorem nodup_boundNames_iff {imports : Imports} :
    imports.boundNames.Nodup ↔
      ∀ i ∈ imports.entries, ∀ j ∈ imports.entries, i.name = j.name → i.module = j.module := by
  rw [boundNames, List.nodup_flatMap]
  constructor
  · rintro ⟨-, hapart⟩ i hi j hj hname
    by_contra hne
    have hsymm : Std.Symm (Function.onFun List.Disjoint imports.names) :=
      ⟨fun _ _ h => List.Disjoint.symm h⟩
    have hdisjoint := hapart.forall (mem_modules.mpr ⟨i, hi, rfl⟩)
      (mem_modules.mpr ⟨j, hj, rfl⟩) hne
    exact hdisjoint (mem_names.mpr hi) (hname ▸ mem_names.mpr hj)
  · intro hmodule
    refine ⟨fun module _ => Text.nodup_ascending _, ?_⟩
    refine imports.nodup_modules.imp fun {a b} hne name ha hb => ?_
    exact hne (hmodule _ (mem_names.mp ha) _ (mem_names.mp hb) rfl)

end Scaffold.TypeScript.Imports

namespace Scaffold.Artifact

open Naming (Name)
open Schema
open TypeScript

/-- A declaration that a file exports. -/
structure Declaration where
  keyword : String
  name : String

/-- The text with which a declaration begins. -/
def Declaration.header (d : Declaration) : String :=
  "export " ++ d.keyword ++ " " ++ d.name ++ " "

namespace Body

def imports : Body → Imports
  | enumeration _ | index _ => .empty
  | entity file => file.imports
  | createDto file => file.imports
  | service file => file.imports

def declarations : Body → List Declaration
  | enumeration file => [⟨"enum", file.name⟩]
  | entity file =>
    (file.keyType.map fun k => Declaration.mk "type" k.name).toList ++
      ⟨"class", file.className⟩ ::
        (file.relations.map fun r =>
          [Declaration.mk "class" r.name, ⟨"type", r.withRelationsType⟩]).getD []
  | createDto file => [⟨"class", file.className⟩]
  | service file => [⟨"class", file.className⟩]
  | index _ => []

/-- The names that a file declares. -/
def declaredNames (b : Body) : List String :=
  b.declarations.map Declaration.name

/-- The modules whose names a file passes on. -/
def passedOn : Body → List String
  | index file => (Text.ascending file.modules).map fun module => "./" ++ module
  | enumeration _ | entity _ | createDto _ | service _ => []

end Body

theorem infix_append_left {part s t : String} (h : part.toList <:+: s.toList) :
    part.toList <:+: (s ++ t).toList := by
  rw [String.toList_append]
  exact h.trans (List.prefix_append _ _).isInfix

theorem infix_append_right {part s t : String} (h : part.toList <:+: t.toList) :
    part.toList <:+: (s ++ t).toList := by
  rw [String.toList_append]
  exact h.trans (List.suffix_append _ _).isInfix

theorem infix_of_eq {part text : String} (before after : String)
    (h : text = before ++ part ++ after) : part.toList <:+: text.toList := by
  rw [h]
  exact infix_append_left (infix_append_right (List.infix_refl _))

theorem header_infix_classText (name : String) (statics members : List String) :
    (Declaration.header ⟨"class", name⟩).toList <:+:
      (classText ("export class " ++ name) statics members).toList := by
  refine infix_append_left (infix_append_left (infix_append_left (infix_append_left ?_)))
  refine infix_of_eq "" "\x7b\n" ?_
  rw [← String.toList_inj]
  simp [Declaration.header]

theorem EnumFile.header_infix_text (e : EnumFile) :
    (Declaration.header ⟨"enum", e.name⟩).toList <:+: e.text.toList := by
  rw [EnumFile.text]
  refine infix_append_left (infix_append_left ?_)
  refine infix_of_eq (commentAbove e.documentation "") "\x7b\n" ?_
  rw [← String.toList_inj]
  simp [Declaration.header]

theorem KeyType.header_infix_text (k : KeyType) :
    (Declaration.header ⟨"type", k.name⟩).toList <:+: k.text.toList := by
  unfold KeyType.text
  refine infix_append_left (infix_append_left ?_)
  refine infix_of_eq "" "= \x7b\n" ?_
  rw [← String.toList_inj]
  simp [Declaration.header]

theorem RelationsClass.header_infix_text (r : RelationsClass) (className : String)
    {d : Declaration} (hd : d = ⟨"class", r.name⟩ ∨ d = ⟨"type", r.withRelationsType⟩) :
    d.header.toList <:+: (r.text className).toList := by
  unfold RelationsClass.text
  rcases hd with rfl | rfl
  · refine (header_infix_classText _ [] (r.properties.map Property.text)).trans ?_
    refine infix_of_eq "\n"
      ("\n" ++ "export type " ++ r.withRelationsType ++ " = " ++ className ++ " & " ++ r.name ++
        ";\n") ?_
    simp only [String.append_assoc]
  · refine infix_of_eq
      ("\n" ++ classText ("export class " ++ r.name) [] (r.properties.map Property.text) ++
        "\n")
      ("= " ++ className ++ " & " ++ r.name ++ ";\n") ?_
    rw [← String.toList_inj]
    simp [Declaration.header]

theorem Entity.header_infix_text {e : Entity} {d : Declaration}
    (hd : d ∈ (Body.entity e).declarations) : d.header.toList <:+: e.text.toList := by
  rw [Entity.text]
  rcases List.mem_append.mp hd with hd | hd
  · obtain ⟨k, hk, rfl⟩ := Option.map_eq_some_iff.mp (Option.mem_toList.mp hd)
    rw [hk]
    refine infix_append_left (infix_append_left (infix_append_left (infix_append_right ?_)))
    exact infix_append_left k.header_infix_text
  · rcases List.mem_cons.mp hd with rfl | hd
    · exact infix_append_left (infix_append_right (header_infix_classText _ _ _))
    · refine infix_append_right ?_
      cases hrelations : e.relations with
      | none =>
          rw [hrelations] at hd
          cases hd
      | some r =>
          rw [hrelations] at hd
          exact r.header_infix_text e.className (by simpa using hd)

/-- A file exports in its text what it declares. -/
theorem Body.header_infix_text {b : Body} {d : Declaration} (hd : d ∈ b.declarations) :
    d.header.toList <:+: b.text.toList := by
  cases b with
  | enumeration file =>
      rw [List.mem_singleton.mp hd]
      exact file.header_infix_text
  | entity file => exact Entity.header_infix_text hd
  | createDto file =>
      rw [List.mem_singleton.mp hd]
      exact infix_append_right (header_infix_classText _ _ _)
  | service file =>
      rw [List.mem_singleton.mp hd]
      refine infix_of_eq
        (file.imports.render ++ "\n@Injectable()\n")
        ("\x7b\n" ++ indentUnit ++
          "constructor(protected readonly prisma: PrismaClient) \x7b\x7d\n\n" ++
          "\n".intercalate (file.methods.map Method.text) ++ "\x7d\n") ?_
      rw [← String.toList_inj]
      simp [Declaration.header, Body.text, Service.text]
  | index file => cases hd

theorem declaredNames_entity {c : Context} {m : NamedModel} {e : Entity} {key : Option Key}
    (he : Entity.ofModel c m = .ok e) (hkey : m.model.key = .ok key) :
    (Body.entity e).declaredNames =
      (key.map fun _ => m.keyType).toList ++ m.entityClass ::
        if c.config.separateRelationFields then [m.relationsClass, m.withRelationsType]
        else [] := by
  obtain ⟨key', hkey', -, typed, -, typeImports, -, rfl⟩ := entity_ofModel_eq_ok.mp he
  cases hkey.symm.trans hkey'
  rw [Body.declaredNames, Body.declarations, List.map_append, List.map_cons]
  congr 1
  · cases key with
    | none => rfl
    | some k => rfl
  · congr 1
    simp only [Entity.ofParts]
    split
    · rfl
    · rfl

theorem declaredNames_createDto {c : Context} {m : NamedModel} {d : CreateDto}
    (hd : CreateDto.ofModel c m = .ok d) :
    (Body.createDto d).declaredNames = [m.createDtoClass] := by
  obtain ⟨fields, -, rfl⟩ := createDto_ofModel_eq_ok.mp hd
  rfl

theorem declaredNames_service {c : Context} {m : NamedModel} {s : Service}
    (hs : Service.ofModel c m = .ok s) :
    (Body.service s).declaredNames = [m.serviceClass] := by
  obtain ⟨client, -, key, -, rfl⟩ := service_ofModel_eq_ok.mp hs
  rfl

/-! ## Where imports come from

`Origin` lists what a file of each role can import. It is the one place where the converters
are opened for this, and later modules go through its cases. -/

/-- All that is ever imported from packages other than the client of the database. -/
def libraryImports : List Import :=
  [⟨openApiModule, "ApiProperty"⟩, ⟨openApiModule, "ApiPropertyOptional"⟩,
    ⟨validatorModule, "IsOptional"⟩, ⟨validatorModule, "IsArray"⟩, ⟨validatorModule, "IsEnum"⟩,
    ⟨validatorModule, "IsString"⟩, ⟨validatorModule, "IsBoolean"⟩, ⟨validatorModule, "IsInt"⟩,
    ⟨validatorModule, "IsNumber"⟩, ⟨validatorModule, "IsNumberString"⟩,
    ⟨validatorModule, "IsDate"⟩, ⟨transformerModule, "Type"⟩, ⟨"@nestjs/common", "Injectable"⟩]

/-- An import of an enum in a file with some role. -/
def IsEnumImport (role : Role) (n : Name) (i : Import) : Prop :=
  (role = .entity ∧ i = ⟨"../enums/" ++ n.pascal, n.pascal⟩) ∨
    (role = .createDto ∧ i = ⟨"../../enums/" ++ n.pascal, n.pascal⟩)

/-- What an import of a file of a model can be, by the role of the file. -/
inductive Origin (c : Context) (m : NamedModel) : Role → Import → Prop
  | library {role : Role} {i : Import} (hi : i ∈ libraryImports) : Origin c m role i
  | clientTypes {role : Role} {path : String} (hpath : c.clientImportPath = .ok path) :
      Origin c m role ⟨path, clientNamespace⟩
  | entityEnum {n : Name} (hn : n ∈ c.enumNames) :
      Origin c m .entity ⟨"../enums/" ++ n.pascal, n.pascal⟩
  | dtoEnum {n : Name} (hn : n ∈ c.enumNames) :
      Origin c m .createDto ⟨"../../enums/" ++ n.pascal, n.pascal⟩
  | otherEntity {n : Name} (hn : n ∈ c.modelNames) (hne : n ≠ m.names) :
      Origin c m .entity ⟨"../" ++ n.camel ++ "/" ++ entityClassOf n, entityClassOf n⟩
  | client {path : String} (hpath : c.clientImportPath = .ok path) :
      Origin c m .service ⟨path, "PrismaClient"⟩
  | ownEntity : Origin c m .service ⟨"./" ++ m.entityModule, m.entityClass⟩
  | ownDto : Origin c m .service ⟨"./dtos/" ++ m.dtoModule, m.createDtoClass⟩
  | ownKey {k : Key} (hkey : m.model.key = .ok (some k)) :
      Origin c m .service ⟨"./" ++ m.entityModule, m.keyType⟩

variable {c : Context} {m : NamedModel}

theorem name_of_isEnumImport {role : Role} {n : Name} {i : Import} (h : IsEnumImport role n i) :
    i.name = n.pascal := by
  rcases h with ⟨-, rfl⟩ | ⟨-, rfl⟩
  · rfl
  · rfl

/-- Only entities and create-DTOs import enums. -/
theorem exists_of_isEnumImport {a : Artifact} (ha : OfContext c a) {n : Name} {i : Import}
    (henum : IsEnumImport a.body.role n i) :
    (∃ m ∈ c.namedModels, ∃ e, Entity.ofModel c m = .ok e ∧ a = ⟨m.entityPath, .entity e⟩ ∧
        i = ⟨"../enums/" ++ n.pascal, n.pascal⟩) ∨
      ∃ m ∈ c.namedModels, ∃ d, CreateDto.ofModel c m = .ok d ∧ a = ⟨m.dtoPath, .createDto d⟩ ∧
        i = ⟨"../../enums/" ++ n.pascal, n.pascal⟩ := by
  rcases henum with ⟨hrole, rfl⟩ | ⟨hrole, rfl⟩
  · cases ha with
    | entity hm he => exact .inl ⟨_, hm, _, he, rfl, rfl⟩
    | enumeration hmem => cases hrole
    | createDto hm hd => cases hrole
    | service hm hs => cases hrole
    | modelIndex hm hindex => cases hrole
    | enumIndex hindex hsome => cases hrole
  · cases ha with
    | createDto hm hd => exact .inr ⟨_, hm, _, hd, rfl, rfl⟩
    | enumeration hmem => cases hrole
    | entity hm he => cases hrole
    | service hm hs => cases hrole
    | modelIndex hm hindex => cases hrole
    | enumIndex hindex hsome => cases hrole

theorem required_openApiDecorator (isOptional : Bool) (entries : List String) :
    (openApiDecorator isOptional entries).required ∈ libraryImports := by
  cases isOptional <;> simp [openApiDecorator, Decorator.withOptions, Decorator.required,
    libraryImports]

/-- The imports of the decorators that check values. -/
def checkImports : List Import :=
  [⟨validatorModule, "IsArray"⟩, ⟨validatorModule, "IsEnum"⟩, ⟨validatorModule, "IsString"⟩,
    ⟨validatorModule, "IsBoolean"⟩, ⟨validatorModule, "IsInt"⟩, ⟨validatorModule, "IsNumber"⟩,
    ⟨validatorModule, "IsNumberString"⟩, ⟨validatorModule, "IsDate"⟩, ⟨transformerModule, "Type"⟩]

theorem checkImports_subset : ∀ i ∈ checkImports, i ∈ libraryImports := by
  decide

theorem required_validators (t : FieldType) : ∀ d ∈ t.validators, d.required ∈ checkImports := by
  intro d hd
  rcases List.mem_append.mp hd with hd | hd
  · rw [FieldType.listCheck] at hd
    split at hd
    · rw [List.mem_singleton.mp hd]
      decide
    · cases hd
  · rw [FieldType.valueChecks] at hd
    split at hd
    · next type hreference =>
        rcases List.mem_append.mp hd with hd | hd
        · obtain ⟨name, hname, rfl⟩ := Option.map_eq_some_iff.mp (Option.mem_toList.mp hd)
          have hnames : ∀ type : Scalar, ∀ name, type.validator? = some name →
              Import.mk validatorModule name ∈ checkImports := by
            intro type name hname
            cases type <;> cases hname <;> decide
          exact hnames type name hname
        · split at hd
          · rw [List.mem_singleton.mp hd]
            decide
          · cases hd
    · rw [List.mem_singleton.mp hd]
      show Import.mk validatorModule "IsEnum" ∈ checkImports
      decide
    · cases hd
    · cases hd

theorem required_dtoDecorators (f : Field) (t : FieldType) :
    ∀ d ∈ dtoDecorators c f t, d.required ∈ libraryImports := by
  intro d hd
  rcases List.mem_append.mp hd with hd | hd
  · rcases List.mem_append.mp hd with hd | hd
    · split at hd
      · rw [List.mem_singleton.mp hd]
        exact required_openApiDecorator _ _
      · cases hd
    · split at hd
      · rw [List.mem_singleton.mp hd]
        decide
      · cases hd
  · exact checkImports_subset _ (required_validators t d hd)

theorem required_entityDecorators (t : TypedField) :
    ∀ d ∈ entityDecorators c t, d.required ∈ libraryImports := by
  intro d hd
  rw [entityDecorators] at hd
  split at hd
  · rw [List.mem_singleton.mp hd]
    exact required_openApiDecorator _ _
  · cases hd

theorem origin_entity (h : c.WellNamed) {e : Entity} (he : Entity.ofModel c m = .ok e) :
    ∀ i ∈ e.imports.entries, Origin c m .entity i := by
  obtain ⟨key, -, -, typed, htyped, typeImports, himports, rfl⟩ := entity_ofModel_eq_ok.mp he
  intro i hi
  rcases List.mem_append.mp hi with hi | hi
  · obtain ⟨i', hi', rfl⟩ := List.mem_filterMap.mp hi
    obtain ⟨t, ht, himport⟩ := (mem_of_mapM_eq_ok himports).mp hi'
    have hreference := ((ofField_eq_ok h).mp ((mem_typedFields htyped).mp ht).2).1
    rcases entityImport?_eq_some.mp himport with ⟨n, hn, rfl⟩ | ⟨n, hn, hne, rfl⟩ |
      ⟨-, path, hpath, rfl⟩
    · exact .entityEnum (hn ▸ hreference).mem_enumNames
    · exact .otherEntity (hn ▸ hreference).mem_modelNames hne
    · exact .clientTypes hpath
  · obtain ⟨d, hd, rfl⟩ := List.mem_map.mp hi
    obtain ⟨t, -, hd⟩ := List.mem_flatMap.mp hd
    exact .library (required_entityDecorators t d hd)

theorem origin_createDto (h : c.WellNamed) {d : CreateDto} (hd : CreateDto.ofModel c m = .ok d) :
    ∀ i ∈ d.imports.entries, Origin c m .createDto i := by
  obtain ⟨fields, hfields, rfl⟩ := createDto_ofModel_eq_ok.mp hd
  intro i hi
  rcases List.mem_append.mp hi with hi | hi
  · obtain ⟨⟨i', p⟩, hfield, rfl⟩ := List.mem_filterMap.mp hi
    obtain ⟨f, hf, hmake⟩ := (mem_of_mapM_eq_ok hfields).mp hfield
    obtain ⟨t, ht, himport, rfl⟩ := dtoField_eq_ok.mp hmake
    have hreference := ((ofField_eq_ok h).mp ht).1
    rcases dtoImport?_eq_some.mp himport with ⟨n, hn, rfl⟩ | ⟨-, path, hpath, rfl⟩
    · exact .dtoEnum (hn ▸ hreference).mem_enumNames
    · exact .clientTypes hpath
  · obtain ⟨decorator, hdecorator, rfl⟩ := List.mem_map.mp hi
    obtain ⟨⟨i', p⟩, hfield, hdecorator⟩ := List.mem_flatMap.mp hdecorator
    obtain ⟨f, hf, hmake⟩ := (mem_of_mapM_eq_ok hfields).mp hfield
    obtain ⟨t, -, -, rfl⟩ := dtoField_eq_ok.mp hmake
    exact .library (required_dtoDecorators f t decorator hdecorator)

theorem origin_service {s : Service} (hs : Service.ofModel c m = .ok s) :
    ∀ i ∈ s.imports.entries, Origin c m .service i := by
  obtain ⟨client, hclient, key, hkey, rfl⟩ := service_ofModel_eq_ok.mp hs
  intro i hi
  rcases List.mem_append.mp hi with hi | hi
  · simp only [List.mem_cons, List.not_mem_nil, or_false] at hi
    rcases hi with rfl | rfl | rfl | rfl
    · exact .library (by decide)
    · exact .client hclient
    · exact .ownEntity
    · exact .ownDto
  · obtain ⟨k, rfl, rfl⟩ := Option.map_eq_some_iff.mp (Option.mem_toList.mp hi)
    exact .ownKey hkey

end Scaffold.Artifact
