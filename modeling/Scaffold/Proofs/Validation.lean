import Mathlib.Data.Option.Basic
import Scaffold.Schema.Validation

/-!
# What validation accepts

A data model passes `validate` exactly if it is sound, and this file says what that
is: names are distinct, and every name that refers to something is the name of
something declared. Each equivalence follows the order in which defects are looked
for, so the condition of a check may use what the checks before it established.

The keys are the reason for the detour over lists of names. A key is a list of
fields, but it is declared as a list of names, and only in a sound model do the two
say the same. `key_cases` goes through the ways to declare one, and what `key` gives
for each of them is the only thing that later proofs know about it.
-/

namespace Scaffold.Schema

/-- The name under which the client of the database takes a compound key. -/
def PrimaryKey.selector (listed : PrimaryKey) : String :=
  listed.name.getD ("_".intercalate listed.fields)

namespace Model

/-- Names all of which are the names of fields. -/
def Knows (m : Model) (names : List String) : Prop :=
  ∀ name ∈ names, ∃ f ∈ m.fields, f.name = name

theorem isNone_field?_iff {m : Model} {name : String} :
    (m.field? name).isNone = true ↔ ∀ f ∈ m.fields, f.name ≠ name := by
  simp [field?]

theorem firstUnknown?_eq_some_iff {m : Model} {names : List String} {name : String} :
    m.firstUnknown? names = some name ↔ ∃ before after, names = before ++ name :: after ∧
      m.Knows before ∧ ∀ f ∈ m.fields, f.name ≠ name := by
  have hknows : ∀ before : List String,
      (∀ known ∈ before, (!(m.field? known).isNone) = true) ↔ m.Knows before := by
    simp [Knows, field?]
  rw [firstUnknown?, List.find?_eq_some_iff_append, isNone_field?_iff]
  constructor
  · rintro ⟨hname, before, after, rfl, hbefore⟩
    exact ⟨before, after, rfl, (hknows before).mp hbefore, hname⟩
  · rintro ⟨before, after, rfl, hbefore, hname⟩
    exact ⟨hname, before, after, rfl, (hknows before).mpr hbefore⟩

theorem firstUnknown?_eq_none_iff {m : Model} {names : List String} :
    m.firstUnknown? names = none ↔ m.Knows names := by
  simp [firstUnknown?, Knows, field?]

theorem unknownField?_eq_none_iff {m : Model} {names : List String} :
    m.unknownField? names = none ↔ m.Knows names := by
  rw [unknownField?, Option.map_eq_none_iff, firstUnknown?_eq_none_iff]

theorem findSome?_unknownField?_eq_none_iff {m : Model} :
    (m.uniqueIndexes.findSome? fun index => m.unknownField? index.fields) = none ↔
      ∀ index ∈ m.uniqueIndexes, m.Knows index.fields := by
  simp only [List.findSome?_eq_none_iff, unknownField?_eq_none_iff]

section Keys

variable {m : Model}

/-- A model with no compound key, or with one that lists nothing. -/
def ListsNoKey (m : Model) : Prop :=
  ∀ listed, m.primaryKey = some listed → listed.fields = []

theorem listedKey?_eq_some {listed : PrimaryKey} :
    m.listedKey? = some listed ↔ m.primaryKey = some listed ∧ listed.fields ≠ [] := by
  simp [listedKey?, Option.filter_eq_some_iff]

theorem listedKey?_eq_none_iff : m.listedKey? = none ↔ m.ListsNoKey := by
  simp [listedKey?, ListsNoKey, Option.filter_eq_none_iff]

theorem key_of_listsNoKey (h : m.ListsNoKey) :
    m.key = .ok ((m.fields.find? Field.isId).map .single) := by
  rw [key, listedKey?_eq_none_iff.mpr h]

theorem key_of_single {label : Option String} {name : String}
    (hlisted : m.primaryKey = some ⟨label, [name]⟩) (hknown : m.Knows [name]) :
    m.key = .ok ((m.field? name).map .single) := by
  rw [key, listedKey?_eq_some.mpr ⟨hlisted, List.cons_ne_nil _ _⟩]
  dsimp only
  rw [firstUnknown?_eq_none_iff.mpr hknown]

theorem key_of_several {listed : PrimaryKey} (hlisted : m.primaryKey = some listed)
    (hseveral : 2 ≤ listed.fields.length) (hknown : m.Knows listed.fields) :
    m.key = .ok (some (.composite listed.selector
      (m.fields.filter fun f => listed.fields.contains f.name))) := by
  have hne : listed.fields ≠ [] := List.ne_nil_of_length_pos (by omega)
  rw [key, listedKey?_eq_some.mpr ⟨hlisted, hne⟩]
  dsimp only
  rw [firstUnknown?_eq_none_iff.mpr hknown]
  dsimp only
  split
  · next name hone => simp [hone] at hseveral
  · rfl

theorem key_of_unknown {listed : PrimaryKey} {name : String}
    (hlisted : m.primaryKey = some listed) (hunknown : m.firstUnknown? listed.fields = some name) :
    m.key = .error (.fieldNotFound m.name name) := by
  obtain ⟨before, after, hfields, -, -⟩ := firstUnknown?_eq_some_iff.mp hunknown
  have hne : listed.fields ≠ [] :=
    hfields ▸ List.append_ne_nil_of_right_ne_nil _ (List.cons_ne_nil _ _)
  rw [key, listedKey?_eq_some.mpr ⟨hlisted, hne⟩]
  dsimp only
  rw [hunknown]

/-- How a key is declared: not by a list, by a list with an unknown name, by one name, or by
several. -/
theorem key_cases (m : Model) :
    m.ListsNoKey ∨
      (∃ listed name, m.primaryKey = some listed ∧ m.firstUnknown? listed.fields = some name) ∨
      (∃ label name, m.primaryKey = some ⟨label, [name]⟩ ∧ m.Knows [name]) ∨
      ∃ listed, m.primaryKey = some listed ∧ 2 ≤ listed.fields.length ∧ m.Knows listed.fields := by
  cases hlisted : m.listedKey? with
  | none => exact .inl (listedKey?_eq_none_iff.mp hlisted)
  | some listed =>
      obtain ⟨hkey, hne⟩ := listedKey?_eq_some.mp hlisted
      cases hunknown : m.firstUnknown? listed.fields with
      | some name => exact .inr (.inl ⟨listed, name, hkey, hunknown⟩)
      | none =>
          have hknown := firstUnknown?_eq_none_iff.mp hunknown
          obtain ⟨label, fields⟩ := listed
          cases fields with
          | nil => exact absurd rfl hne
          | cons name rest =>
              cases rest with
              | nil => exact .inr (.inr (.inl ⟨label, name, hkey, hknown⟩))
              | cons next rest => exact .inr (.inr (.inr ⟨_, hkey, by simp, hknown⟩))

/-- Nothing but an unknown name keeps a key from being read off. -/
theorem exists_of_key_eq_error {e : Error} (h : m.key = .error e) :
    ∃ listed name, m.primaryKey = some listed ∧ m.firstUnknown? listed.fields = some name ∧
      e = .fieldNotFound m.name name := by
  rcases m.key_cases with hnone | ⟨listed, name, hlisted, hunknown⟩ |
    ⟨label, name, hlisted, hknown⟩ | ⟨listed, hlisted, hseveral, hknown⟩
  · rw [key_of_listsNoKey hnone] at h
    cases h
  · rw [key_of_unknown hlisted hunknown] at h
    exact ⟨listed, name, hlisted, hunknown, (Except.error.inj h).symm⟩
  · rw [key_of_single hlisted hknown] at h
    cases h
  · rw [key_of_several hlisted hseveral hknown] at h
    cases h

/-- A key can be read off exactly if the names in the compound key are names of fields. -/
theorem exists_key_iff :
    (∃ key, m.key = .ok key) ↔ ∀ listed, m.primaryKey = some listed → m.Knows listed.fields := by
  rcases m.key_cases with hnone | ⟨listed, name, hlisted, hunknown⟩ |
    ⟨label, name, hlisted, hknown⟩ | ⟨listed, hlisted, hseveral, hknown⟩
  · refine iff_of_true ⟨_, key_of_listsNoKey hnone⟩ fun listed hlisted name hname => ?_
    rw [hnone listed hlisted] at hname
    cases hname
  · refine iff_of_false (by simp [key_of_unknown hlisted hunknown]) fun hknown => ?_
    rw [firstUnknown?_eq_none_iff.mpr (hknown listed hlisted)] at hunknown
    cases hunknown
  · refine iff_of_true ⟨_, key_of_single hlisted hknown⟩ fun other hother => ?_
    cases hlisted.symm.trans hother
    exact hknown
  · refine iff_of_true ⟨_, key_of_several hlisted hseveral hknown⟩ fun other hother => ?_
    cases hlisted.symm.trans hother
    exact hknown

/-- The fields of a key are fields of the model. -/
theorem mem_fields_of_key {k : Key} (h : m.key = .ok (some k)) : ∀ f ∈ k.fields, f ∈ m.fields := by
  have hfound : ∀ {p : Field → Bool}, (m.fields.find? p).map Key.single = some k →
      ∀ f ∈ k.fields, f ∈ m.fields := by
    intro p h f hf
    obtain ⟨g, hfind, rfl⟩ := Option.map_eq_some_iff.mp h
    rw [List.mem_singleton.mp hf]
    exact List.mem_of_find?_eq_some hfind
  rcases m.key_cases with hnone | ⟨listed, name, hlisted, hunknown⟩ |
    ⟨label, name, hlisted, hknown⟩ | ⟨listed, hlisted, hseveral, hknown⟩
  · rw [key_of_listsNoKey hnone] at h
    exact hfound (Except.ok.inj h)
  · rw [key_of_unknown hlisted hunknown] at h
    cases h
  · rw [key_of_single hlisted hknown] at h
    exact hfound (Except.ok.inj h)
  · rw [key_of_several hlisted hseveral hknown] at h
    cases h
    exact fun f hf => (List.mem_filter.mp hf).1

end Keys

/-- A model without a defect in itself. -/
structure Sound (m : Model) : Prop where
  fieldNames : (m.fields.map Field.name).Nodup
  key : ∃ key, m.key = .ok key
  uniqueIndexes : ∀ index ∈ m.uniqueIndexes, m.Knows index.fields
  references : ∀ f ∈ m.fields, ∀ r, f.relation? = some r → m.Knows r.fromFields

theorem findSome?_fromFields_eq_none_iff {m : Model} :
    (m.relationFields.findSome? fun f =>
      f.relation?.bind fun r => m.unknownField? r.fromFields) = none ↔
      ∀ f ∈ m.fields, ∀ r, f.relation? = some r → m.Knows r.fromFields := by
  simp only [List.findSome?_eq_none_iff, relationFields, List.mem_filter, Field.isRelation,
    Option.bind_eq_none_iff, unknownField?_eq_none_iff, and_imp]
  refine forall_congr' fun f => imp_congr_right fun _ => ?_
  exact ⟨fun h r hr => h (by rw [hr]; rfl) r hr, fun h _ => h⟩

theorem defect?_eq_none_iff {m : Model} : m.defect? = none ↔ m.Sound := by
  rw [defect?]
  split
  · next name hrepeat =>
      refine iff_of_false (by simp) fun hsound => ?_
      rw [firstRepeat?_eq_none_iff.mpr ⟨hsound.fieldNames, by simp⟩] at hrepeat
      cases hrepeat
  · next hdistinct =>
      have hnodup := (firstRepeat?_eq_none_iff.mp hdistinct).1
      split
      · next e hkey =>
          refine iff_of_false (by simp) fun hsound => ?_
          obtain ⟨key, hok⟩ := hsound.key
          rw [hkey] at hok
          cases hok
      · next key hkey =>
          rw [Option.orElse_eq_none, findSome?_unknownField?_eq_none_iff,
            findSome?_fromFields_eq_none_iff]
          exact ⟨fun ⟨hi, hr⟩ => ⟨hnodup, ⟨key, hkey⟩, hi, hr⟩,
            fun hsound => ⟨hsound.uniqueIndexes, hsound.references⟩⟩

end Model

namespace Datamodel

/-- A kind whose enum or model, if it has one, is declared. -/
def Declares (d : Datamodel) : Kind → Prop
  | .enumeration name => name ∈ d.enums.map Enumeration.name
  | .relation r => r.model ∈ d.models.map Model.name
  | .scalar _ | .object _ => True

/-- A data model without a defect. -/
structure Sound (d : Datamodel) : Prop where
  enumNames : (d.enums.map Enumeration.name).Nodup
  modelNames : (d.models.map Model.name).Nodup
  models : ∀ m ∈ d.models, m.Sound
  types : ∀ m ∈ d.models, ∀ f ∈ m.fields, d.Declares f.kind

theorem isSome_enum?_iff {d : Datamodel} {name : String} :
    (d.enum? name).isSome = true ↔ name ∈ d.enums.map Enumeration.name := by
  rw [enum?, List.find?_isSome, List.mem_map]
  simp only [decide_eq_true_eq]

theorem isSome_model?_iff {d : Datamodel} {name : String} :
    (d.model? name).isSome = true ↔ name ∈ d.models.map Model.name := by
  rw [model?, List.find?_isSome, List.mem_map]
  simp only [decide_eq_true_eq]

theorem undeclaredType?_eq_none_iff {d : Datamodel} {m : Model} {f : Field} :
    d.undeclaredType? m f = none ↔ d.Declares f.kind := by
  rw [undeclaredType?]
  cases f.kind with
  | scalar type => exact iff_of_true rfl trivial
  | object name => exact iff_of_true rfl trivial
  | enumeration name =>
      simp only [Declares, ← isSome_enum?_iff]
      split
      · next h => exact iff_of_true rfl h
      · next h => exact iff_of_false (by simp) h
  | relation r =>
      simp only [Declares, ← isSome_model?_iff]
      split
      · next h => exact iff_of_true rfl h
      · next h => exact iff_of_false (by simp) h

theorem defect?_eq_none_iff {d : Datamodel} : d.defect? = none ↔ d.Sound := by
  have hmodels : (d.models.findSome? fun m =>
      m.defect? <|> m.fields.findSome? (d.undeclaredType? m)) = none ↔
      ∀ m ∈ d.models, m.Sound ∧ ∀ f ∈ m.fields, d.Declares f.kind := by
    simp only [List.findSome?_eq_none_iff, Option.orElse_eq_none,
      Model.defect?_eq_none_iff, undeclaredType?_eq_none_iff]
  rw [defect?]
  split
  · next name hrepeat =>
      refine iff_of_false (by simp) fun hsound => ?_
      rw [firstRepeat?_eq_none_iff.mpr ⟨hsound.enumNames, by simp⟩] at hrepeat
      cases hrepeat
  · next henums =>
      have henumNames := (firstRepeat?_eq_none_iff.mp henums).1
      split
      · next name hrepeat =>
          refine iff_of_false (by simp) fun hsound => ?_
          rw [firstRepeat?_eq_none_iff.mpr ⟨hsound.modelNames, by simp⟩] at hrepeat
          cases hrepeat
      · next hmodelNames =>
          have hmodelNames := (firstRepeat?_eq_none_iff.mp hmodelNames).1
          rw [hmodels]
          exact ⟨fun h => ⟨henumNames, hmodelNames, fun m hm => (h m hm).1,
              fun m hm => (h m hm).2⟩,
            fun hsound m hm => ⟨hsound.models m hm, hsound.types m hm⟩⟩

/-- A data model is valid exactly if it is sound. -/
theorem validate_eq_ok_iff {d : Datamodel} : d.validate = .ok () ↔ d.Sound := by
  rw [validate, ← defect?_eq_none_iff]
  cases d.defect? with
  | some e => simp
  | none => simp

end Datamodel

end Scaffold.Schema
