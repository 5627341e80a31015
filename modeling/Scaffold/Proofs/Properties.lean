import Scaffold.Proofs.References
import Scaffold.Proofs.Sufficiency

/-!
# The property of a field

An entity shows every field of its model by one property. Where relations are kept
apart it has two classes to put the property in, and which of them it is depends on the
field alone. Everything that is said about a field somewhere else, in the type of a key
or in a create-DTO, can be compared with this one property.

The types of the fields stand beside the fields in the order of the model, so the lemmas
here go through lists of fields with their types and not through the model itself.
-/

namespace Scaffold

open Document (Environment Options)
open Naming (Name)
open Schema
open TypeScript

/-- Two lists are compared by what is read off their entries. -/
theorem forall₂_eq_iff_map_eq {α β γ : Type} {f : α → γ} {g : β → γ} {xs : List α}
    {ys : List β} : List.Forall₂ (fun x y => f x = g y) xs ys ↔ xs.map f = ys.map g := by
  rw [← List.forall₂_eq_eq_eq, List.forall₂_map_left_iff, List.forall₂_map_right_iff]

namespace Artifact

variable {c : Context} {m : NamedModel}

theorem map_field_typedFields {model : Model} {typed : List TypedField}
    (htyped : typedFields c model = .ok typed) : typed.map TypedField.field = model.fields := by
  have hfields : List.Forall₂ (fun t f => TypedField.field t = id f) typed model.fields := by
    refine ((mapM_eq_ok_iff.mp htyped).flip).imp fun t f ht => ?_
    obtain ⟨type, -, rfl⟩ := map_eq_ok.mp ht
    rfl
  rw [forall₂_eq_iff_map_eq.mp hfields, List.map_id]

/-- A field is typed as a relation exactly if it is one. -/
theorem isRelation_ofField {model : String} {f : Field} {t : FieldType}
    (ht : FieldType.ofField c model f = .ok t) : t.isRelation = f.isRelation := by
  obtain ⟨r, hr, rfl⟩ := map_eq_ok.mp ht
  rw [FieldType.referenceOf] at hr
  rw [Field.isRelation, Field.relation?]
  split at hr
  · next hkind =>
      cases hr
      rw [hkind]
      rfl
  · next hkind =>
      rw [hkind]
      split at hr
      · cases hr
        rfl
      · cases hr
  · next hkind =>
      rw [hkind]
      split at hr
      · cases hr
        rfl
      · cases hr
  · next hkind =>
      cases hr
      rw [hkind]
      rfl

/-- Among fields of distinct names only one has the name of a given field. -/
theorem filter_field_name {typed : List TypedField}
    (hnodup : (typed.map fun t => t.field.name).Nodup) {t : TypedField} (ht : t ∈ typed) :
    typed.filter (fun u => u.field.name = t.field.name) = [t] := by
  obtain ⟨before, after, rfl⟩ := List.append_of_mem ht
  rw [List.map_append, List.map_cons, List.nodup_middle, ← List.map_append,
    List.nodup_cons] at hnodup
  have hother : (before ++ after).filter (fun u => u.field.name = t.field.name) = [] := by
    refine List.filter_eq_nil_iff.mpr fun u hu => ?_
    rw [decide_eq_true_eq]
    intro hname
    exact hnodup.1 (List.mem_map.mpr ⟨u, hu, hname⟩)
  obtain ⟨hbefore, hafter⟩ := List.append_eq_nil_iff.mp (List.filter_append .. ▸ hother)
  rw [List.filter_append, List.filter_cons, hbefore, hafter]
  simp

/-- The properties of the class in which an entity shows a field. -/
def Entity.classOf (e : Entity) (f : Field) : List Property :=
  match e.relations with
  | some relations => if f.isRelation then relations.properties else e.properties
  | none => e.properties

/-- A property that no other property of a file shares its name with. -/
def Body.IsPropertyOf (b : Body) (name : String) (p : Property) : Prop :=
  b.properties.filter (fun q => q.name = name) = [p]

/-- Both classes of an entity together have a property for every field. -/
theorem properties_ofParts_perm (key : Option Key) (typed : List TypedField)
    (typeImports : List (Option Import)) :
    (Body.entity (Entity.ofParts c m key typed typeImports)).properties.Perm
      (typed.map (entityProperty c)) := by
  rw [Body.properties, Entity.ofParts]
  split
  · rw [Option.map_some, Option.getD_some, ← List.map_append]
    exact (List.perm_append_comm.trans (List.filter_append_perm _ _)).map _
  · simp

/-- An entity has a class of relations exactly if they are kept apart. -/
theorem isSome_relations {e : Entity} (he : Entity.ofModel c m = .ok e) :
    e.relations.isSome = c.config.separateRelationFields := by
  obtain ⟨key, -, -, typed, -, typeImports, -, rfl⟩ := entity_ofModel_eq_ok.mp he
  rw [Entity.ofParts]
  cases c.config.separateRelationFields with
  | true => rfl
  | false => rfl

/-- An entity shows a field by one property, in the class that its fields of this kind
have. -/
theorem isPropertyOf_entity {e : Entity} (he : Entity.ofModel c m = .ok e)
    (hnodup : (m.model.fields.map Field.name).Nodup) {f : Field} (hf : f ∈ m.model.fields)
    {t : FieldType} (ht : FieldType.ofField c m.model.name f = .ok t) :
    entityProperty c ⟨f, t⟩ ∈ e.classOf f ∧
      (Body.entity e).IsPropertyOf f.name (entityProperty c ⟨f, t⟩) := by
  obtain ⟨key, -, -, typed, htyped, typeImports, -, rfl⟩ := entity_ofModel_eq_ok.mp he
  have hmem : TypedField.mk f t ∈ typed := (mem_typedFields htyped).mpr ⟨hf, ht⟩
  constructor
  · have hrelation := isRelation_ofField ht
    rw [Entity.classOf, Entity.ofParts]
    cases hapart : c.config.separateRelationFields with
    | false => exact List.mem_map_of_mem hmem
    | true =>
        dsimp only [if_true]
        cases hkind : f.isRelation with
        | true =>
            exact List.mem_map_of_mem
              (List.mem_filter.mpr ⟨hmem, by rw [hrelation, hkind]⟩)
        | false =>
            exact List.mem_map_of_mem
              (List.mem_filter.mpr ⟨hmem, by rw [hrelation, hkind]; rfl⟩)
  · rw [← map_field_typedFields htyped, List.map_map] at hnodup
    have hfilter := (properties_ofParts_perm (c := c) (m := m) key typed typeImports).filter
      fun q => q.name = f.name
    rw [List.filter_map] at hfilter
    have hone : typed.filter ((fun q => decide (q.name = f.name)) ∘ entityProperty c) =
        [⟨f, t⟩] := filter_field_name hnodup hmem
    rw [hone] at hfilter
    exact List.perm_singleton.mp hfilter

end Artifact

/-- The files that a run makes for a model of its document. -/
theorem Generates.exists_filesOfModel {options : Options} {config : Config} {env : Environment}
    {workingDirectory : Path} {c : Context} {tree : List Artifact} {out : Output}
    (h : Generates options config env workingDirectory c tree out) {model : Model}
    (hmodel : model ∈ options.datamodel.models) :
    ∃ n e d s, Name.ofIdentifier model.name = .ok n ∧
      Artifact.Entity.ofModel c ⟨model, n⟩ = .ok e ∧
      Artifact.CreateDto.ofModel c ⟨model, n⟩ = .ok d ∧
      Artifact.Service.ofModel c ⟨model, n⟩ = .ok s ∧
      ⟨(NamedModel.mk model n).entityPath, .entity e⟩ ∈ tree ∧
      ⟨(NamedModel.mk model n).dtoPath, .createDto d⟩ ∈ tree ∧
      ⟨(NamedModel.mk model n).servicePath, .service s⟩ ∈ tree := by
  rw [← h.datamodel_eq] at hmodel
  obtain ⟨n, hn, -⟩ := h.wellNamed.models.exists_ofIdentifier (List.mem_map_of_mem hmodel)
  have hnamed : NamedModel.mk model n ∈ c.namedModels :=
    h.wellNamed.mem_namedModels.mpr ⟨hmodel, hn⟩
  obtain ⟨e, d, s, hfiles⟩ := Artifact.exists_modelFiles h.wellNamed h.project hnamed
  exact ⟨n, e, d, s, hn, hfiles⟩

end Scaffold
