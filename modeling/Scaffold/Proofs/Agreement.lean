import Scaffold.Proofs.Converters
import Scaffold.Proofs.Defects

/-!
# Entities are made of what validation accepts

The names in a model are looked up twice: by validation, which asks the data model whether they
are declared, and again when an entity is made, where the tables of the context are asked. A
caller who makes an entity without validating first is not answered differently, for both look for
faults in the same order. `Rejected` is that order: the key comes first, then the unique indexes,
and the types of the fields come last.

Validation asks for more than an entity needs. It also rejects repeated field names, and relations
held by fields that do not exist. Models with either fault are set aside here.
-/

namespace Scaffold

open Naming (Name)
open Schema

namespace Schema

variable {d : Datamodel} {m : Model} {e : Error}

/-- The first reason to reject a model: its key, else a unique index, else the type of a field. -/
inductive Datamodel.Rejected (d : Datamodel) (m : Model) : Error → Prop
  | key {e : Error} (hkey : m.key = .error e) : Rejected d m e
  | uniqueIndex {key : Option Key} {e : Error} (hkey : m.key = .ok key)
      (hindex : (m.uniqueIndexes.findSome? fun index => m.unknownField? index.fields) = some e) :
      Rejected d m e
  | type {key : Option Key} {e : Error} (hkey : m.key = .ok key)
      (hindexes : ∀ index ∈ m.uniqueIndexes, m.Knows index.fields)
      (htype : m.fields.findSome? (d.undeclaredType? m) = some e) : Rejected d m e

/-- The part of validation that is about one model. -/
def Datamodel.validateModel (d : Datamodel) (m : Model) : Except Error Unit :=
  match m.defect? <|> m.fields.findSome? (d.undeclaredType? m) with
  | some e => .error e
  | none => .ok ()

/-- Where names are distinct, validation is about one model after another. -/
theorem Datamodel.validate_eq_forM (henums : (d.enums.map Enumeration.name).Nodup)
    (hmodels : (d.models.map Model.name).Nodup) :
    d.validate = d.models.forM d.validateModel := by
  rw [validate, defect?, firstRepeat?_eq_none_iff.mpr ⟨henums, by simp⟩,
    firstRepeat?_eq_none_iff.mpr ⟨hmodels, by simp⟩]
  dsimp only
  clear henums hmodels
  induction d.models with
  | nil => rfl
  | cons m models ih =>
      rw [List.forM, ← ih, List.findSome?_cons, validateModel]
      cases m.defect? <|> m.fields.findSome? (d.undeclaredType? m) with
      | none => rfl
      | some e => rfl

theorem Model.defect?_eq_some_iff (hnodup : (m.fields.map Field.name).Nodup)
    (hreferences : ∀ f ∈ m.fields, ∀ r, f.relation? = some r → m.Knows r.fromFields) :
    m.defect? = some e ↔ m.key = .error e ∨ ∃ key, m.key = .ok key ∧
      (m.uniqueIndexes.findSome? fun index => m.unknownField? index.fields) = some e := by
  rw [defect?, firstRepeat?_eq_none_iff.mpr ⟨hnodup, by simp⟩,
    findSome?_fromFields_eq_none_iff.mpr hreferences]
  dsimp only
  cases m.key with
  | error e' => simp
  | ok key => simp

theorem Datamodel.validateModel_eq_error_iff (hnodup : (m.fields.map Field.name).Nodup)
    (hreferences : ∀ f ∈ m.fields, ∀ r, f.relation? = some r → m.Knows r.fromFields) :
    d.validateModel m = .error e ↔ d.Rejected m e := by
  have hsome : d.validateModel m = .error e ↔
      (m.defect? <|> m.fields.findSome? (d.undeclaredType? m)) = some e := by
    rw [validateModel]
    split
    · next e' hsome => simp [hsome]
    · next hnone => simp [hnone]
  rw [hsome, Option.orElse_eq_some, Model.defect?_eq_some_iff hnodup hreferences,
    Model.defect?_eq_none_iff]
  constructor
  · rintro ((hkey | ⟨key, hkey, hindex⟩) | ⟨hsound, htype⟩)
    · exact .key hkey
    · exact .uniqueIndex hkey hindex
    · obtain ⟨key, hkey⟩ := hsound.key
      exact .type hkey hsound.uniqueIndexes htype
  · intro hrejected
    cases hrejected with
    | key hkey => exact .inl (.inl hkey)
    | @uniqueIndex key _ hkey hindex => exact .inl (.inr ⟨key, hkey, hindex⟩)
    | @type key _ hkey hindexes htype =>
        exact .inr ⟨⟨hnodup, ⟨key, hkey⟩, hindexes, hreferences⟩, htype⟩

end Schema

namespace Artifact

variable {c : Context} {e : Error}

/-- A look-up in the tables of a context fails where the data model declares no such name. -/
theorem referenceOf_eq_error (h : c.WellNamed) {m : Model} {f : Field} :
    FieldType.referenceOf c m.name f = .error e ↔ c.datamodel.undeclaredType? m f = some e := by
  rw [FieldType.referenceOf, Datamodel.undeclaredType?]
  cases f.kind with
  | scalar type => simp
  | object name => simp
  | enumeration name =>
      have hsame : (c.datamodel.enum? name).isSome = (c.enumNames.find? name).isSome :=
        Bool.eq_iff_iff.mpr (Datamodel.isSome_enum?_iff.trans h.enums.isSome_find?_iff.symm)
      dsimp only
      rw [hsame]
      cases c.enumNames.find? name with
      | none => simp
      | some n => simp
  | relation r =>
      have hsame : (c.datamodel.model? r.model).isSome = (c.modelNames.find? r.model).isSome :=
        Bool.eq_iff_iff.mpr (Datamodel.isSome_model?_iff.trans h.models.isSome_find?_iff.symm)
      dsimp only
      rw [hsame]
      cases c.modelNames.find? r.model with
      | none => simp
      | some n => simp

theorem typedFields_eq_error_iff (h : c.WellNamed) {m : Model} :
    typedFields c m = .error e ↔
      m.fields.findSome? (c.datamodel.undeclaredType? m) = some e := by
  rw [typedFields]
  refine mapM_eq_error_iff fun f _ e => ?_
  rw [map_eq_error, FieldType.ofField, map_eq_error, referenceOf_eq_error h]

theorem entity_eq_error_iff (h : c.WellNamed) {path : String}
    (hclient : c.clientImportPath = .ok path) {m : NamedModel} :
    entity c m = .error e ↔ c.datamodel.Rejected m.model e := by
  rw [entity, map_eq_error, Entity.ofModel, bind_eq_error]
  constructor
  · rintro (hkey | ⟨key, hkey, hrest⟩)
    · exact .key hkey
    · split at hrest
      · next e' hindex =>
          cases hrest
          exact .uniqueIndex hkey hindex
      · next hindexes =>
          have hindexes := Model.findSome?_unknownField?_eq_none_iff.mp hindexes
          rcases bind_eq_error.mp hrest with htyped | ⟨typed, -, hrest⟩
          · exact .type hkey hindexes ((typedFields_eq_error_iff h).mp htyped)
          · -- With the client in place nothing fails behind the types of the fields.
            obtain ⟨imports, himports⟩ : ∃ imports,
                typed.mapM (fun t => entityImport? c m t.type) = .ok imports :=
              exists_mapM_eq_ok fun t _ => exists_entityImport? hclient t.type
            rw [himports] at hrest
            cases hrest
  · intro hrejected
    cases hrejected with
    | key hkey => exact .inl hkey
    | @uniqueIndex key _ hkey hindex =>
        refine .inr ⟨key, hkey, ?_⟩
        rw [hindex]
    | @type key _ hkey hindexes htype =>
        refine .inr ⟨key, hkey, ?_⟩
        rw [Model.findSome?_unknownField?_eq_none_iff.mpr hindexes]
        exact bind_eq_error.mpr (.inl ((typedFields_eq_error_iff h).mpr htype))

end Artifact

namespace Context

/-- In a context that knows the client, the entity of a model fails exactly if validation of the
model does, and then with the same error. -/
theorem ofDatamodel_entity_agrees {d : Datamodel} {config : Config} {c : Context}
    (hc : ofDatamodel d config = .ok c) :
    d.validate = d.models.forM d.validateModel ∧
      ∀ paths, ∀ m ∈ d.models, (m.fields.map Field.name).Nodup →
        (∀ f ∈ m.fields, ∀ r, f.relation? = some r → m.Knows r.fromFields) →
        ∃ names, NamedModel.ofModel { c with clientPaths := some paths } m = .ok ⟨m, names⟩ ∧
          ∀ e, Artifact.entity { c with clientPaths := some paths } ⟨m, names⟩ = .error e ↔
            d.validateModel m = .error e := by
  obtain ⟨rfl, -, hnamed⟩ := ofDatamodel_spec hc
  refine ⟨Datamodel.validate_eq_forM hnamed.enums.nodup hnamed.models.nodup, ?_⟩
  intro paths m hm hnodup hreferences
  obtain ⟨names, hnames⟩ := hnamed.models.exists_find? (List.mem_map_of_mem hm)
  refine ⟨names, by rw [NamedModel.ofModel, hnames], fun e => ?_⟩
  rw [Artifact.entity_eq_error_iff (hnamed.placed paths) rfl,
    Datamodel.validateModel_eq_error_iff hnodup hreferences]

/-- A post whose author and state both have undeclared types. -/
def danglingPost : Model :=
  (Model.plain "Post" [
    (Field.plain "id" (.scalar .int)).asId,
    Field.plain "authorId" (.scalar .int),
    Field.plain "author" (.relation ⟨"Writer", "PostToWriter", ["authorId"], []⟩),
    Field.plain "state" (.enumeration "State")]).withUniqueIndex ["authorId", "state"]

theorem ofDatamodel_entity_agrees_danglingPost :
    (danglingPost.fields.map Field.name).Nodup ∧
      (∀ f ∈ danglingPost.fields, ∀ r, f.relation? = some r → danglingPost.Knows r.fromFields) ∧
      ∃ c names paths, ofDatamodel ⟨[], [danglingPost]⟩ .standard = .ok c ∧
        NamedModel.ofModel { c with clientPaths := some paths } danglingPost =
          .ok ⟨danglingPost, names⟩ ∧
        Artifact.entity { c with clientPaths := some paths } ⟨danglingPost, names⟩ =
          .error (.modelNotFound "Writer" "Post.author") ∧
        Datamodel.validate ⟨[], [danglingPost]⟩ =
          .error (.modelNotFound "Writer" "Post.author") := by
  have hnodup : (danglingPost.fields.map Field.name).Nodup := by decide
  have hreferences : ∀ f ∈ danglingPost.fields, ∀ r ∈ f.relation?, ∀ name ∈ r.fromFields,
      ∃ g ∈ danglingPost.fields, g.name = name := by decide
  obtain ⟨c, hc⟩ : ∃ c, ofDatamodel ⟨[], [danglingPost]⟩ .standard = .ok c := ⟨_, rfl⟩
  obtain ⟨hvalidate, hagrees⟩ := ofDatamodel_entity_agrees hc
  obtain ⟨names, hnames, hentity⟩ := hagrees ⟨⟨"/app"⟩, ⟨"/app/client"⟩, "../client"⟩ danglingPost
    List.mem_cons_self hnodup hreferences
  refine ⟨hnodup, hreferences, c, names, _, hc, hnames, (hentity _).mpr ?_, ?_⟩
  · decide
  · rw [hvalidate]
    decide

end Context

end Scaffold
