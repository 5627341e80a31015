import Scaffold.Proofs.Tree
import Scaffold.Proofs.Validation

/-!
# What the converters make

An entity, a create-DTO and a service are each made in a chain of steps that may
fail. For each of them this file says once when the chain succeeds and what it then
gives, so that no later proof opens a chain.

All of them rest on the types of fields, and those on two look-ups. In a context
whose names are spelled a look-up fails only for a name that is not declared, which
turns the look-ups into the relation `Reference.Of`: what a field of some kind
refers to.
-/

namespace Scaffold.Artifact

open Naming (Name)
open Schema
open TypeScript

variable {c : Context} {m : NamedModel}

/-- What a field of some kind refers to. -/
inductive Reference.Of (c : Context) : Kind → Reference → Prop
  | scalar {type : Scalar} : Of c (.scalar type) (.scalar type)
  | enumeration {n : Name} (hn : n ∈ c.enumNames) :
      Of c (.enumeration n.identifier) (.enumeration n)
  | entity {r : Relation} {n : Name} (hn : n ∈ c.modelNames) (hmodel : n.identifier = r.model) :
      Of c (.relation r) (.entity n)
  | object {name : String} : Of c (.object name) .object

theorem Reference.Of.mem_enumNames {kind : Kind} {n : Name} (h : Of c kind (.enumeration n)) :
    n ∈ c.enumNames := by
  cases h with
  | enumeration hn => exact hn

theorem Reference.Of.mem_modelNames {kind : Kind} {n : Name} (h : Of c kind (.entity n)) :
    n ∈ c.modelNames := by
  cases h with
  | entity hn _ => exact hn

theorem referenceOf_eq_ok (h : c.WellNamed) {model : String} {f : Field} {r : Reference} :
    FieldType.referenceOf c model f = .ok r ↔ Reference.Of c f.kind r := by
  rw [FieldType.referenceOf]
  cases f.kind with
  | scalar type =>
      constructor
      · rintro ⟨⟩
        exact .scalar
      · rintro ⟨⟩
        rfl
  | object name =>
      constructor
      · rintro ⟨⟩
        exact .object
      · rintro ⟨⟩
        rfl
  | enumeration name =>
      dsimp only
      constructor
      · intro hr
        split at hr
        · next n hfind =>
            cases hr
            obtain ⟨hn, rfl⟩ := h.enums.find?_eq_some_iff.mp hfind
            exact .enumeration hn
        · cases hr
      · intro hr
        cases hr with
        | enumeration hn => rw [h.enums.find?_identifier hn]
  | relation rel =>
      dsimp only
      constructor
      · intro hr
        split at hr
        · next n hfind =>
            cases hr
            obtain ⟨hn, hmodel⟩ := h.models.find?_eq_some_iff.mp hfind
            exact .entity hn hmodel
        · cases hr
      · intro hr
        cases hr with
        | entity hn hmodel => rw [h.models.find?_eq_some_iff.mpr ⟨hn, hmodel⟩]

theorem exists_reference (h : c.WellNamed) {kind : Kind} (hdeclared : c.datamodel.Declares kind) :
    ∃ r, Reference.Of c kind r := by
  cases kind with
  | scalar type => exact ⟨_, .scalar⟩
  | object name => exact ⟨_, .object⟩
  | enumeration name =>
      obtain ⟨n, hfind⟩ := h.enums.exists_find? hdeclared
      obtain ⟨hn, rfl⟩ := h.enums.find?_eq_some_iff.mp hfind
      exact ⟨_, .enumeration hn⟩
  | relation r =>
      obtain ⟨n, hfind⟩ := h.models.exists_find? hdeclared
      obtain ⟨hn, hmodel⟩ := h.models.find?_eq_some_iff.mp hfind
      exact ⟨_, .entity hn hmodel⟩

theorem ofField_eq_ok (h : c.WellNamed) {model : String} {f : Field} {t : FieldType} :
    FieldType.ofField c model f = .ok t ↔
      Reference.Of c f.kind t.reference ∧ t.isList = f.isList ∧ t.nullable = !f.required := by
  rw [FieldType.ofField, map_eq_ok]
  constructor
  · rintro ⟨r, hr, rfl⟩
    exact ⟨(referenceOf_eq_ok h).mp hr, rfl, rfl⟩
  · rintro ⟨hr, hlist, hnullable⟩
    refine ⟨t.reference, (referenceOf_eq_ok h).mpr hr, ?_⟩
    rw [← hlist, ← hnullable]

theorem exists_ofField (h : c.WellNamed) (model : String) {f : Field}
    (hdeclared : c.datamodel.Declares f.kind) : ∃ t, FieldType.ofField c model f = .ok t := by
  obtain ⟨r, hr⟩ := exists_reference h hdeclared
  exact ⟨⟨r, f.isList, !f.required⟩, (ofField_eq_ok h).mpr ⟨hr, rfl, rfl⟩⟩

theorem entityImport?_eq_some {t : FieldType} {i : Import} :
    entityImport? c m t = .ok (some i) ↔
      (∃ n, t.reference = .enumeration n ∧ i = ⟨"../enums/" ++ n.pascal, n.pascal⟩) ∨
      (∃ n, t.reference = .entity n ∧ n ≠ m.names ∧
        i = ⟨"../" ++ n.camel ++ "/" ++ entityClassOf n, entityClassOf n⟩) ∨
      (t.needsClientNamespace = true ∧
        ∃ path, c.clientImportPath = .ok path ∧ i = ⟨path, clientNamespace⟩) := by
  obtain ⟨reference, isList, nullable⟩ := t
  cases reference with
  | scalar type =>
      simp only [entityImport?, reduceCtorEq, false_and, exists_false, false_or]
      split
      · next hneeds =>
          rw [map_eq_ok]
          simp only [hneeds, true_and, Option.some.injEq]
          exact exists_congr fun path => and_congr_right fun _ => eq_comm
      · next hneeds => simp [hneeds]
  | enumeration n => simp [entityImport?, FieldType.needsClientNamespace, eq_comm]
  | entity n =>
      by_cases hown : n = m.names
      · simp [entityImport?, FieldType.needsClientNamespace, hown]
      · simp [entityImport?, FieldType.needsClientNamespace, hown, eq_comm]
  | object => simp [entityImport?, FieldType.needsClientNamespace]

theorem dtoImport?_eq_some {t : FieldType} {i : Import} :
    dtoImport? c t = .ok (some i) ↔
      (∃ n, t.reference = .enumeration n ∧ i = ⟨"../../enums/" ++ n.pascal, n.pascal⟩) ∨
      (t.needsClientNamespace = true ∧
        ∃ path, c.clientImportPath = .ok path ∧ i = ⟨path, clientNamespace⟩) := by
  obtain ⟨reference, isList, nullable⟩ := t
  cases reference with
  | scalar type =>
      simp only [dtoImport?, reduceCtorEq, false_and, exists_false, false_or]
      split
      · next hneeds =>
          rw [map_eq_ok]
          simp only [hneeds, true_and, Option.some.injEq]
          exact exists_congr fun path => and_congr_right fun _ => eq_comm
      · next hneeds => simp [hneeds]
  | enumeration n => simp [dtoImport?, FieldType.needsClientNamespace, eq_comm]
  | entity n => simp [dtoImport?, FieldType.needsClientNamespace]
  | object => simp [dtoImport?, FieldType.needsClientNamespace]

/-- Once the place of the client is known, every type can be imported. -/
theorem exists_entityImport? {path : String} (hclient : c.clientImportPath = .ok path)
    (t : FieldType) : ∃ i, entityImport? c m t = .ok i := by
  rw [entityImport?]
  split
  · exact ⟨_, rfl⟩
  · split
    · exact ⟨_, rfl⟩
    · exact ⟨_, rfl⟩
  · split
    · exact ⟨_, map_eq_ok.mpr ⟨path, hclient, rfl⟩⟩
    · exact ⟨_, rfl⟩
  · exact ⟨_, rfl⟩

theorem exists_dtoImport? {path : String} (hclient : c.clientImportPath = .ok path)
    (t : FieldType) : ∃ i, dtoImport? c t = .ok i := by
  rw [dtoImport?]
  split
  · exact ⟨_, rfl⟩
  · split
    · exact ⟨_, map_eq_ok.mpr ⟨path, hclient, rfl⟩⟩
    · exact ⟨_, rfl⟩
  · exact ⟨_, rfl⟩
  · exact ⟨_, rfl⟩

/-- The entity of a model whose key is known, and its fields with their types. -/
def Entity.ofParts (c : Context) (m : NamedModel) (key : Option Key) (typed : List TypedField)
    (typeImports : List (Option Import)) : Entity where
  imports :=
    ⟨typeImports.filterMap id ++ (typed.flatMap (entityDecorators c)).map Decorator.required⟩
  keyType := key.map fun k => ⟨m.keyType, keyMembers typed k⟩
  documentation := m.model.documentation
  className := m.entityClass
  primaryKey := key.map fun k => k.fields.map Field.name
  uniqueIndexes := m.model.uniqueIndexes.map UniqueIndex.fields
  properties :=
    (if c.config.separateRelationFields then typed.filter fun t => !t.type.isRelation
      else typed).map (entityProperty c)
  relations :=
    if c.config.separateRelationFields then
      some ⟨m.relationsClass, m.withRelationsType,
        (typed.filter fun t => t.type.isRelation).map (entityProperty c)⟩
    else none

theorem entity_ofModel_eq_ok {e : Entity} :
    Entity.ofModel c m = .ok e ↔
      ∃ key, m.model.key = .ok key ∧
        (∀ index ∈ m.model.uniqueIndexes, m.model.Knows index.fields) ∧
        ∃ typed, typedFields c m.model = .ok typed ∧
          ∃ typeImports, typed.mapM (fun t => entityImport? c m t.type) = .ok typeImports ∧
            Entity.ofParts c m key typed typeImports = e := by
  rw [Entity.ofModel, bind_eq_ok]
  refine exists_congr fun key => and_congr_right fun _ => ?_
  split
  · next e hfind =>
      refine iff_of_false (by simp) fun h => ?_
      rw [Model.findSome?_unknownField?_eq_none_iff.mpr h.1] at hfind
      cases hfind
  · next hfind =>
      simp only [bind_eq_ok, pure_eq_ok, ← Model.findSome?_unknownField?_eq_none_iff, hfind,
        true_and]
      rfl

theorem mem_typedFields {model : Model} {typed : List TypedField}
    (htyped : typedFields c model = .ok typed) {t : TypedField} :
    t ∈ typed ↔ t.field ∈ model.fields ∧ FieldType.ofField c model.name t.field = .ok t.type := by
  rw [mem_of_mapM_eq_ok htyped]
  constructor
  · rintro ⟨f, hf, ht⟩
    obtain ⟨type, htype, rfl⟩ := map_eq_ok.mp ht
    exact ⟨hf, htype⟩
  · rintro ⟨hf, htype⟩
    exact ⟨t.field, hf, map_eq_ok.mpr ⟨t.type, htype, rfl⟩⟩

/-- A member of a key type has the name and the type of a field. -/
theorem exists_of_mem_keyMembers {model : Model} {k : Key} {typed : List TypedField}
    (hkey : model.key = .ok (some k)) (htyped : typedFields c model = .ok typed) :
    ∀ member ∈ keyMembers typed k,
      ∃ t ∈ typed, member = (t.field.name, t.type.typeExpr) := by
  intro member hmember
  obtain ⟨f, hf, rfl⟩ := List.mem_map.mp hmember
  split
  · next t hfind =>
      have hname : t.field.name = f.name := by simpa using List.find?_some hfind
      exact ⟨t, List.mem_of_find?_eq_some hfind, by rw [hname]⟩
  · next hnone =>
      -- Every field of the model has its type, those of the key included.
      have hfield := Model.mem_fields_of_key hkey f hf
      obtain ⟨t, ht⟩ := exists_ok_of_mapM_eq_ok htyped f hfield
      obtain ⟨type, -, rfl⟩ := map_eq_ok.mp ht
      have hmem := (mem_of_mapM_eq_ok htyped).mpr ⟨f, hfield, ht⟩
      have hdiffers := List.find?_eq_none.mp hnone _ hmem
      simp at hdiffers

/-- The create-DTO of a model whose fields are known, each with the import for its type. -/
def CreateDto.ofParts (m : NamedModel) (fields : List (Option Import × Property)) : CreateDto where
  imports :=
    ⟨fields.filterMap Prod.fst ++
      (fields.flatMap fun field => field.2.decorators).map Decorator.required⟩
  className := m.createDtoClass
  properties := fields.map Prod.snd

theorem createDto_ofModel_eq_ok {d : CreateDto} :
    CreateDto.ofModel c m = .ok d ↔
      ∃ fields, m.createFields.mapM (dtoField c m.model.name) = .ok fields ∧
        CreateDto.ofParts m fields = d := by
  simp only [CreateDto.ofModel, bind_eq_ok, pure_eq_ok]
  rfl

theorem dtoField_eq_ok {model : String} {f : Field} {i : Option Import} {p : Property} :
    dtoField c model f = .ok (i, p) ↔
      ∃ t, FieldType.ofField c model f = .ok t ∧ dtoImport? c t = .ok i ∧
        dtoProperty c f t = p := by
  simp only [dtoField, bind_eq_ok, pure_eq_ok, Prod.mk.injEq]
  refine exists_congr fun t => and_congr_right fun _ => ?_
  constructor
  · rintro ⟨i', hi, rfl, rfl⟩
    exact ⟨hi, rfl⟩
  · rintro ⟨hi, rfl⟩
    exact ⟨i, hi, rfl, rfl⟩

theorem mem_createFields {f : Field} :
    f ∈ m.createFields ↔
      f ∈ m.model.fields ∧ f.isRelation = false ∧ f.isSystemManaged = false := by
  simp [NamedModel.createFields]

theorem service_ofModel_eq_ok {s : Service} :
    Service.ofModel c m = .ok s ↔
      ∃ client, c.clientImportPath = .ok client ∧ ∃ key, m.model.key = .ok key ∧
        ⟨Service.importsOf m client key, m.serviceClass, Service.methodsOf m key⟩ = s := by
  simp only [Service.ofModel, bind_eq_ok, pure_eq_ok]

end Scaffold.Artifact
