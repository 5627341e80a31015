import Scaffold.Proofs.Bindings

/-!
# Files import what they use and nothing else

What a file has to import can be read off its properties one by one. A property needs
the decorators written above it, each from the package that provides it, and whatever
its type refers to outside the file: an enum, the class of another model, or the
namespace of the client. `Needs` is this list, stated for a single property and
without a look at the imports of the file.

The imports themselves are put together apart from the text of the properties, in the
same pass but from other data, so both inclusions have something to say. They are
proved for all properties at once, since the properties of an entity and those of a
create-DTO differ in where they come from and not in what they need.
-/

namespace Scaffold

open Document (Environment Options)
open Naming (Name)
open Schema
open Text (ending)
open TypeScript

namespace TypeScript

/-- The name in the text of a decorator is its name, unless that holds a bracket. -/
theorem Decorator.nameInCall_call {d : Decorator} (h : '(' ∉ d.name.toList) :
    nameInCall d.call = d.name := by
  have hall : ∀ x ∈ d.name.toList, decide (x ≠ '(') = true := by
    intro x hx
    rw [decide_eq_true_eq]
    rintro rfl
    exact h hx
  rw [nameInCall, call, String.toList_append, String.toList_append, String.toList_append,
    List.append_assoc, List.append_assoc, List.takeWhile_append_of_pos hall]
  simp

end TypeScript

namespace Artifact

/-- A property that a file of a model writes for a field, whose type refers to something. -/
structure Shows (c : Context) (m : NamedModel) (p : Property) (f : Field) (r : Reference) :
    Prop where
  mem_fields : f ∈ m.model.fields
  name : p.name = f.name
  reference : Reference.Of c f.kind r
  base : p.type.base = r.base

/-- The import of the class of a model in files of other models. -/
def entityImport (n : Name) : Import :=
  ⟨"../" ++ n.camel ++ "/" ++ entityClassOf n, entityClassOf n⟩

/-- What a type needs from outside a file with some role. The class of the model itself
is not outside, and create-DTOs refer to no class of a model. -/
inductive TypeNeeds (c : Context) (m : NamedModel) : Role → Reference → Import → Prop
  | enumeration {role : Role} {n : Name} {i : Import} (henum : IsEnumImport role n i) :
      TypeNeeds c m role (.enumeration n) i
  | entity {n : Name} (hother : n ≠ m.names) :
      TypeNeeds c m .entity (.entity n) (entityImport n)
  | client {role : Role} {path : String} (hpath : c.clientImportPath = .ok path) :
      TypeNeeds c m role (.scalar .json) ⟨path, clientNamespace⟩

/-- What a property needs: the decorators above it, under the names they are written with,
and what its type needs. -/
def Needs (c : Context) (m : NamedModel) (role : Role) (p : Property) (r : Reference)
    (i : Import) : Prop :=
  (∃ d ∈ p.decorators, i ∈ libraryImports ∧ i.name = Decorator.nameInCall d.call) ∨
    TypeNeeds c m role r i

/-- A file of a model that imports exactly what its properties need. -/
structure Body.SelfSufficient (c : Context) (m : NamedModel) (b : Body) : Prop where
  shown : ∀ p ∈ b.properties, ∃ f r, Shows c m p f r
  provided : ∀ p ∈ b.properties, ∀ d ∈ p.decorators,
    ∃ i ∈ libraryImports, i.name = Decorator.nameInCall d.call
  imports : ∀ i, i ∈ b.imports.entries ↔
    ∃ p ∈ b.properties, ∃ f r, Shows c m p f r ∧ Needs c m b.role p r i

variable {c : Context} {m : NamedModel}

theorem Reference.Of.unique (h : c.WellNamed) {f : Field} {r r' : Reference}
    (hr : Of c f.kind r) (hr' : Of c f.kind r') : r = r' := by
  have hok := (@referenceOf_eq_ok c h "" f r).mpr hr
  have hok' := (@referenceOf_eq_ok c h "" f r').mpr hr'
  exact Except.ok.inj (hok.symm.trans hok')

theorem needsClientNamespace_iff {t : FieldType} :
    t.needsClientNamespace = true ↔ t.reference = .scalar .json := by
  obtain ⟨reference, isList, nullable⟩ := t
  cases reference <;> simp [FieldType.needsClientNamespace, Scalar.needsClientNamespace]

theorem entityImport?_eq_some_iff {t : FieldType} {i : Import} :
    entityImport? c m t = .ok (some i) ↔ TypeNeeds c m .entity t.reference i := by
  rw [entityImport?_eq_some, needsClientNamespace_iff]
  constructor
  · rintro (⟨n, hn, rfl⟩ | ⟨n, hn, hother, rfl⟩ | ⟨hjson, path, hpath, rfl⟩)
    · exact hn ▸ .enumeration (.inl ⟨rfl, rfl⟩)
    · exact hn ▸ .entity hother
    · exact hjson ▸ .client hpath
  · intro hneeds
    generalize hreference : t.reference = r at hneeds
    cases hneeds with
    | enumeration henum =>
        rcases henum with ⟨-, hi⟩ | ⟨hrole, -⟩
        · exact .inl ⟨_, rfl, hi⟩
        · cases hrole
    | entity hother => exact .inr (.inl ⟨_, rfl, hother, rfl⟩)
    | client hpath => exact .inr (.inr ⟨rfl, _, hpath, rfl⟩)

theorem dtoImport?_eq_some_iff {t : FieldType} {i : Import} :
    dtoImport? c t = .ok (some i) ↔ TypeNeeds c m .createDto t.reference i := by
  rw [dtoImport?_eq_some, needsClientNamespace_iff]
  constructor
  · rintro (⟨n, hn, rfl⟩ | ⟨hjson, path, hpath, rfl⟩)
    · exact hn ▸ .enumeration (.inr ⟨rfl, rfl⟩)
    · exact hjson ▸ .client hpath
  · intro hneeds
    generalize hreference : t.reference = r at hneeds
    cases hneeds with
    | enumeration henum =>
        rcases henum with ⟨hrole, -⟩ | ⟨-, hi⟩
        · cases hrole
        · exact .inl ⟨_, rfl, hi⟩
    | client hpath => exact .inr ⟨rfl, _, hpath, rfl⟩

theorem eq_of_name_eq_libraryImports :
    ∀ i ∈ libraryImports, ∀ j ∈ libraryImports, i.name = j.name → i = j := by
  decide +kernel

theorem not_mem_name_libraryImports : ∀ i ∈ libraryImports, '(' ∉ i.name.toList := by
  decide +kernel

theorem eq_required_iff {d : Decorator} (hd : d.required ∈ libraryImports) {i : Import} :
    i = d.required ↔ i ∈ libraryImports ∧ i.name = Decorator.nameInCall d.call := by
  rw [Decorator.nameInCall_call (not_mem_name_libraryImports _ hd)]
  constructor
  · rintro rfl
    exact ⟨hd, rfl⟩
  · rintro ⟨hi, hname⟩
    exact eq_of_name_eq_libraryImports i hi _ hd hname

/-! ## Files of models

Entities and create-DTOs are made in different ways that come to the same: each property is
made from a field with its type, and each import belongs to a decorator or to such a type.
`MadeFrom` is all that is used of either. -/

/-- How the properties and the imports of a file come about: each property from a field
with its type, each import from a decorator or from the type of a field. -/
structure Body.MadeFrom (c : Context) (m : NamedModel) (b : Body)
    (Made : Property → Field → FieldType → Prop) : Prop where
  properties : ∀ p, p ∈ b.properties ↔ ∃ f t, Made p f t
  mem_fields : ∀ {p f t}, Made p f t → f ∈ m.model.fields
  type : ∀ {p f t}, Made p f t → FieldType.ofField c m.model.name f = .ok t
  name : ∀ {p f t}, Made p f t → p.name = f.name
  typeExpr : ∀ {p f t}, Made p f t → p.type = t.typeExpr
  decorators : ∀ {p f t}, Made p f t → ∀ d ∈ p.decorators, d.required ∈ libraryImports
  imports : ∀ i, i ∈ b.imports.entries ↔
    ∃ p f t, Made p f t ∧ ((∃ d ∈ p.decorators, i = d.required) ∨ TypeNeeds c m b.role t.reference i)

theorem Body.MadeFrom.selfSufficient {b : Body} {Made : Property → Field → FieldType → Prop}
    (hmade : b.MadeFrom c m Made) (h : c.WellNamed)
    (hnodup : (m.model.fields.map Field.name).Nodup) : b.SelfSufficient c m := by
  have hshows : ∀ {p f t}, Made p f t → Shows c m p f t.reference := by
    intro p f t hp
    refine ⟨hmade.mem_fields hp, hmade.name hp, ((ofField_eq_ok h).mp (hmade.type hp)).1, ?_⟩
    rw [hmade.typeExpr hp]
    rfl
  refine ⟨?_, ?_, ?_⟩
  · intro p hp
    obtain ⟨f, t, hp⟩ := (hmade.properties p).mp hp
    exact ⟨f, t.reference, hshows hp⟩
  · intro p hp d hd
    obtain ⟨f, t, hp⟩ := (hmade.properties p).mp hp
    exact ⟨d.required, (eq_required_iff (hmade.decorators hp d hd)).mp rfl⟩
  · intro i
    rw [hmade.imports]
    constructor
    · rintro ⟨p, f, t, hp, hneeds⟩
      refine ⟨p, (hmade.properties p).mpr ⟨f, t, hp⟩, f, t.reference, hshows hp, ?_⟩
      rcases hneeds with ⟨d, hd, hi⟩ | htype
      · exact .inl ⟨d, hd, (eq_required_iff (hmade.decorators hp d hd)).mp hi⟩
      · exact .inr htype
    · rintro ⟨p, hp, f, r, hshown, hneeds⟩
      obtain ⟨f', t, hp⟩ := (hmade.properties p).mp hp
      -- Both fields have the name of the property, and there is only one of that name.
      have hf : f = f' := List.inj_on_of_nodup_map hnodup hshown.mem_fields
        (hmade.mem_fields hp) (hshown.name.symm.trans (hmade.name hp))
      subst hf
      refine ⟨p, f, t, hp, ?_⟩
      rcases hneeds with ⟨d, hd, hi⟩ | htype
      · exact .inl ⟨d, hd, (eq_required_iff (hmade.decorators hp d hd)).mpr hi⟩
      · rw [hshown.reference.unique h (hshows hp).reference] at htype
        exact .inr htype

/-- How the file of an entity is made: all fields are typed, and a relation stands in one
class or the other. -/
theorem madeFrom_entity {key : Option Key} {typed : List TypedField}
    {typeImports : List (Option Import)} (htyped : typedFields c m.model = .ok typed)
    (himports : typed.mapM (fun t => entityImport? c m t.type) = .ok typeImports) :
    (Body.entity (Entity.ofParts c m key typed typeImports)).MadeFrom c m
      fun p f t => ⟨f, t⟩ ∈ typed ∧ entityProperty c ⟨f, t⟩ = p where
  properties p := by
    have hmem : p ∈ (Body.entity (Entity.ofParts c m key typed typeImports)).properties ↔
        ∃ t ∈ typed, entityProperty c t = p := by
      rw [← List.mem_map, Body.properties, Entity.ofParts]
      split
      · have hsplit : typed.Perm ((typed.filter fun t => !t.type.isRelation) ++
            typed.filter fun t => t.type.isRelation) :=
          List.perm_append_comm.trans (List.filter_append_perm _ _) |>.symm
        exact ((hsplit.map (entityProperty c)).mem_iff.trans (by simp)).symm
      · simp
    rw [hmem]
    constructor
    · rintro ⟨t, ht, hp⟩
      exact ⟨t.field, t.type, ht, hp⟩
    · rintro ⟨f, t, ht, hp⟩
      exact ⟨⟨f, t⟩, ht, hp⟩
  mem_fields h := ((mem_typedFields htyped).mp h.1).1
  type h := ((mem_typedFields htyped).mp h.1).2
  name h := h.2 ▸ rfl
  typeExpr h := h.2 ▸ rfl
  decorators := by
    rintro p f t ⟨-, rfl⟩
    exact required_entityDecorators ⟨f, t⟩
  imports i := by
    rw [Body.imports, Entity.ofParts, List.mem_append, or_comm]
    constructor
    · rintro (hi | hi)
      · obtain ⟨d, hd, rfl⟩ := List.mem_map.mp hi
        obtain ⟨t, ht, hd⟩ := List.mem_flatMap.mp hd
        exact ⟨_, t.field, t.type, ⟨ht, rfl⟩, .inl ⟨d, hd, rfl⟩⟩
      · obtain ⟨_, hi, rfl⟩ := List.mem_filterMap.mp hi
        obtain ⟨t, ht, himport⟩ := (mem_of_mapM_eq_ok himports).mp hi
        exact ⟨_, t.field, t.type, ⟨ht, rfl⟩, .inr (entityImport?_eq_some_iff.mp himport)⟩
    · rintro ⟨p, f, t, ⟨ht, rfl⟩, ⟨d, hd, rfl⟩ | hneeds⟩
      · exact .inl (List.mem_map_of_mem (List.mem_flatMap.mpr ⟨_, ht, hd⟩))
      · have himport := entityImport?_eq_some_iff.mpr hneeds
        exact .inr (List.mem_filterMap.mpr
          ⟨some i, (mem_of_mapM_eq_ok himports).mpr ⟨_, ht, himport⟩, rfl⟩)

/-- How the file of a create-DTO is made: only the fields that callers supply are typed. -/
theorem madeFrom_createDto {fields : List (Option Import × Property)}
    (hfields : m.createFields.mapM (dtoField c m.model.name) = .ok fields) :
    (Body.createDto (CreateDto.ofParts m fields)).MadeFrom c m
      fun p f t => f ∈ m.createFields ∧ FieldType.ofField c m.model.name f = .ok t ∧
        (∃ i, dtoImport? c t = .ok i) ∧ dtoProperty c f t = p where
  properties p := by
    have hmem : p ∈ (Body.createDto (CreateDto.ofParts m fields)).properties ↔
        ∃ i, (i, p) ∈ fields := by
      rw [Body.properties, CreateDto.ofParts, List.mem_map]
      exact ⟨fun ⟨⟨i, _⟩, hi, hp⟩ => ⟨i, hp ▸ hi⟩, fun ⟨i, hi⟩ => ⟨(i, p), hi, rfl⟩⟩
    rw [hmem]
    constructor
    · rintro ⟨i, hi⟩
      obtain ⟨f, hf, hmake⟩ := (mem_of_mapM_eq_ok hfields).mp hi
      obtain ⟨t, ht, himport, hp⟩ := dtoField_eq_ok.mp hmake
      exact ⟨f, t, hf, ht, ⟨i, himport⟩, hp⟩
    · rintro ⟨f, t, hf, ht, ⟨i, himport⟩, hp⟩
      exact ⟨i, (mem_of_mapM_eq_ok hfields).mpr ⟨f, hf, dtoField_eq_ok.mpr ⟨t, ht, himport, hp⟩⟩⟩
  mem_fields h := (mem_createFields.mp h.1).1
  type h := h.2.1
  name h := h.2.2.2 ▸ rfl
  typeExpr h := h.2.2.2 ▸ rfl
  decorators := by
    rintro p f t ⟨-, -, -, rfl⟩
    exact required_dtoDecorators f t
  imports i := by
    rw [Body.imports, CreateDto.ofParts, List.mem_append, or_comm]
    constructor
    · rintro (hi | hi)
      · obtain ⟨d, hd, rfl⟩ := List.mem_map.mp hi
        obtain ⟨⟨i, p⟩, hfield, hd⟩ := List.mem_flatMap.mp hd
        obtain ⟨f, hf, hmake⟩ := (mem_of_mapM_eq_ok hfields).mp hfield
        obtain ⟨t, ht, himport, rfl⟩ := dtoField_eq_ok.mp hmake
        exact ⟨_, f, t, ⟨hf, ht, ⟨i, himport⟩, rfl⟩, .inl ⟨d, hd, rfl⟩⟩
      · obtain ⟨⟨_, p⟩, hfield, rfl⟩ := List.mem_filterMap.mp hi
        obtain ⟨f, hf, hmake⟩ := (mem_of_mapM_eq_ok hfields).mp hfield
        obtain ⟨t, ht, himport, rfl⟩ := dtoField_eq_ok.mp hmake
        exact ⟨_, f, t, ⟨hf, ht, ⟨_, himport⟩, rfl⟩, .inr (dtoImport?_eq_some_iff.mp himport)⟩
    · rintro ⟨p, f, t, ⟨hf, ht, ⟨i', himport⟩, hp⟩, hneeds⟩
      have hfield : (i', p) ∈ fields :=
        (mem_of_mapM_eq_ok hfields).mpr ⟨f, hf, dtoField_eq_ok.mpr ⟨t, ht, himport, hp⟩⟩
      rcases hneeds with ⟨d, hd, rfl⟩ | hneeds
      · exact .inl (List.mem_map_of_mem (List.mem_flatMap.mpr ⟨_, hfield, hd⟩))
      · obtain rfl := Except.ok.inj (himport.symm.trans (dtoImport?_eq_some_iff.mpr hneeds))
        exact .inr (List.mem_filterMap.mpr ⟨_, hfield, rfl⟩)

theorem selfSufficient_entity (h : c.WellNamed) (hnodup : (m.model.fields.map Field.name).Nodup)
    {e : Entity} (he : Entity.ofModel c m = .ok e) : (Body.entity e).SelfSufficient c m := by
  obtain ⟨key, -, -, typed, htyped, typeImports, himports, rfl⟩ := entity_ofModel_eq_ok.mp he
  exact (madeFrom_entity htyped himports).selfSufficient h hnodup

theorem selfSufficient_createDto (h : c.WellNamed)
    (hnodup : (m.model.fields.map Field.name).Nodup) {d : CreateDto}
    (hd : CreateDto.ofModel c m = .ok d) : (Body.createDto d).SelfSufficient c m := by
  obtain ⟨fields, hfields, rfl⟩ := createDto_ofModel_eq_ok.mp hd
  exact (madeFrom_createDto hfields).selfSufficient h hnodup

/-- Where the class of a model shares its module with an enum, they share the directory. -/
theorem camel_eq_of_entityImport_eq {n n' : Name} {module directory : String}
    (hdirectory : module = "../" ++ directory ++ "/")
    (h : entityImport n = ⟨module ++ n'.pascal, n'.pascal⟩) : n.camel = directory := by
  obtain ⟨hmodule, hname⟩ := Import.mk.inj h
  rw [hname, hdirectory] at hmodule
  have hcamel := (String.append_left_inj _).mp ((String.append_left_inj _).mp hmodule)
  exact (String.append_right_inj _).mp hcamel

/-- The files that show the fields of a model never import the class of that model. -/
theorem not_origin_entityImport (h : c.WellNamed) (hm : m ∈ c.namedModels) {role : Role}
    (hrole : role = .entity ∨ role = .createDto) : ¬ Origin c m role (entityImport m.names) := by
  have hending : ending 3 (entityClassOf m.names) ∈ generatedEndings := by
    rw [ending_entityClassOf]
    decide
  have hmodel := h.names_mem hm
  generalize hi : entityImport m.names = i
  intro horigin
  cases horigin with
  | library hlibrary =>
      rw [← hi] at hlibrary
      exact ending_libraryImports _ hlibrary hending
  | clientTypes hpath =>
      rw [show entityClassOf m.names = clientNamespace from congrArg Import.name hi] at hending
      exact ending_clientNamespace hending
  | @entityEnum n hn =>
      exact h.directories _ hmodel (camel_eq_of_entityImport_eq (by decide) hi)
  | @dtoEnum n hn =>
      have hcamel : m.names.camel = "../enums" := camel_eq_of_entityImport_eq (by decide) hi
      have hslash := (h.models.wellSpelled hmodel).camel_alphanum '/' (by rw [hcamel]; decide)
      revert hslash
      decide
  | @otherEntity n hn hother =>
      have hpascal : m.names.pascal = n.pascal :=
        (String.append_left_inj _).mp (congrArg Import.name hi)
      exact hother (h.models.eq_of_pascal_eq hmodel hn hpascal).symm
  | client hpath | ownEntity | ownDto | ownKey hkey => simp at hrole

/-- What a service imports: always the same four names, and the type of the key if the
model has one. -/
theorem mem_imports_service_iff {s : Service} {client : String} {key : Option Key}
    (hclient : c.clientImportPath = .ok client) (hkey : m.model.key = .ok key)
    (hs : Service.ofModel c m = .ok s) {i : Import} :
    i ∈ s.imports.entries ↔
      i = ⟨"@nestjs/common", "Injectable"⟩ ∨ i = ⟨client, "PrismaClient"⟩ ∨
        i = ⟨"./" ++ m.entityModule, m.entityClass⟩ ∨
        i = ⟨"./dtos/" ++ m.dtoModule, m.createDtoClass⟩ ∨
        (key.isSome = true ∧ i = ⟨"./" ++ m.entityModule, m.keyType⟩) := by
  obtain ⟨client', hclient', key', hkey', rfl⟩ := service_ofModel_eq_ok.mp hs
  obtain rfl := Except.ok.inj (hclient.symm.trans hclient')
  obtain rfl := Except.ok.inj (hkey.symm.trans hkey')
  cases key with
  | none => simp [Service.importsOf]
  | some k => simp [Service.importsOf]

end Artifact

/-- The files of a run import what they use and nothing else. In the lines below its banner
a file has its imports, and further down its properties, each with a line for every
decorator. Entities and create-DTOs import property by property what these need, and never
the class of the model itself; a service has a fixed list. -/
theorem generate_selfSufficient {options : Options} {config : Config} {env : Environment}
    {workingDirectory : Path} {out : Output}
    (h : generate options config env workingDirectory = .ok out) :
    ∃ c tree, Generates options config env workingDirectory c tree out ∧
      ∀ f ∈ out.files, ∃ a ∈ tree, f.Holds a ∧ f.WritesImports a.body.imports ∧
        (∀ p ∈ a.body.properties, f.Contains (propertyLines p) ∧
          ∀ d ∈ p.decorators, f.Contains (decoratorLine d)) ∧
        (f.role = .entity ∨ f.role = .createDto →
          ∃ m ∈ c.namedModels, (f.path = m.entityPath ∨ f.path = m.dtoPath) ∧
            a.body.SelfSufficient c m ∧
            Artifact.entityImport m.names ∉ a.body.imports.entries) ∧
        (f.role = .service →
          ∃ m ∈ c.namedModels, f.path = m.servicePath ∧
            ∃ client, c.clientImportPath = .ok client ∧ ∃ key, m.model.key = .ok key ∧
              ∀ i, i ∈ a.body.imports.entries ↔
                i = ⟨"@nestjs/common", "Injectable"⟩ ∨ i = ⟨client, "PrismaClient"⟩ ∨
                  i = ⟨"./" ++ m.entityModule, m.entityClass⟩ ∨
                  i = ⟨"./dtos/" ++ m.dtoModule, m.createDtoClass⟩ ∨
                  (key.isSome = true ∧ i = ⟨"./" ++ m.entityModule, m.keyType⟩)) := by
  obtain ⟨c, tree, hrun⟩ := exists_generates h
  have hnamed := hrun.wellNamed
  have hnodup : ∀ {m : NamedModel}, m ∈ c.namedModels →
      (m.model.fields.map Field.name).Nodup :=
    fun hm => (hrun.sound.models _ (hnamed.model_mem hm)).fieldNames
  refine ⟨c, tree, hrun, fun f hf => ?_⟩
  obtain ⟨a, ha, hholds⟩ := hrun.exists_artifact hf
  refine ⟨a, ha, hholds, hholds.writesImports, fun p hp => ?_, ?_, ?_⟩
  · have hproperty := hholds.contains_property hp
    exact ⟨hproperty, fun d hd => (infix_decoratorLine hd).trans hproperty⟩
  · rw [hholds.role, hholds.path]
    intro hrole
    cases hrun.mem_tree_iff.mp ha with
    | entity hm he =>
        exact ⟨_, hm, .inl rfl, Artifact.selfSufficient_entity hnamed (hnodup hm) he,
          fun hi => Artifact.not_origin_entityImport hnamed hm (.inl rfl)
            (Artifact.origin_entity hnamed he _ hi)⟩
    | createDto hm hd =>
        exact ⟨_, hm, .inr rfl, Artifact.selfSufficient_createDto hnamed (hnodup hm) hd,
          fun hi => Artifact.not_origin_entityImport hnamed hm (.inr rfl)
            (Artifact.origin_createDto hnamed hd _ hi)⟩
    | enumeration hmem => simp [Artifact.ofEnum, Artifact.Body.role] at hrole
    | service hm hs => simp [Artifact.Body.role] at hrole
    | modelIndex hm hindex => simp [Artifact.modelIndex, Artifact.Body.role] at hrole
    | enumIndex hindex hsome => simp [Artifact.enumIndexOf, Artifact.Body.role] at hrole
  · rw [hholds.role, hholds.path]
    intro hrole
    cases hrun.mem_tree_iff.mp ha with
    | @service m s hm hs =>
        obtain ⟨client, hclient, key, hkey, -⟩ := Artifact.service_ofModel_eq_ok.mp hs
        exact ⟨m, hm, rfl, client, hclient, key, hkey,
          fun i => Artifact.mem_imports_service_iff hclient hkey hs⟩
    | enumeration hmem | entity hm he | createDto hm hd | modelIndex hm hindex
      | enumIndex hindex hsome => cases hrole

theorem generate_selfSufficient_smallDatamodel :
    ∃ out, generate (.ofDatamodel smallDatamodel) .standard (fun _ => none) ⟨"/work"⟩ = .ok out ∧
      ∃ c tree, Generates (.ofDatamodel smallDatamodel) .standard (fun _ => none) ⟨"/work"⟩ c tree
          out ∧
        ∃ f, out.filesAt ⟨"user/dtos/Create-User.dto.ts"⟩ = [f] ∧
          f.Contains "import \x7b IsEnum, IsInt \x7d from \"class-validator\";\n" ∧
          f.Contains "    @IsEnum(UserRole)\n" ∧
          ∃ a ∈ tree, f.Holds a ∧ ∃ m ∈ c.namedModels, a.body.SelfSufficient c m := by
  obtain ⟨out, hout⟩ := exists_generate_smallDatamodel
  obtain ⟨c, tree, hrun, hfiles⟩ := generate_selfSufficient hout
  obtain ⟨f, hf, -, hcheck⟩ := hrun.exists_file_of_any ⟨"user/dtos/Create-User.dto.ts"⟩
    (p := fun b => decide (b.role = .createDto) &&
      decide (b.imports.names "class-validator" = ["IsEnum", "IsInt"]) &&
      b.properties.any fun p => p.decorators.any fun d =>
        decide (decoratorLine d = "    @IsEnum(UserRole)\n"))
    (by decide +kernel)
  obtain ⟨a, ha, hholds, himports, hproperties, hsufficient, -⟩ :=
    hfiles f (Output.mem_files_of_filesAt hf)
  have hbody := hcheck a ha hholds
  simp only [Bool.and_eq_true, decide_eq_true_eq, List.any_eq_true] at hbody
  obtain ⟨⟨hrole, hnames⟩, p, hp, d, hd, hline⟩ := hbody
  obtain ⟨m, hm, -, hself, -⟩ := hsufficient (.inr (hholds.role.trans hrole))
  refine ⟨out, hout, c, tree, hrun, f, hf, ?_, ?_, a, ha, hholds, m, hm, hself⟩
  · have hmem : "IsInt" ∈ a.body.imports.names "class-validator" := by
      rw [hnames]
      decide
    have hmodule := himports.contains_line
      ((himports.modules _).mpr ⟨_, (himports.names _ _).mp hmem, rfl⟩)
    rw [hnames] at hmodule
    exact hmodule
  · rw [← hline]
    exact (hproperties p hp).2 d hd

end Scaffold
