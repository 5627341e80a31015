import Mathlib.Data.List.Nodup
import Scaffold.Proofs.Validation

/-!
# What validation promises and what it reports

A data model that passes validation is closed: whatever it refers to by name is
declared, and no two declarations of one kind share a name. There is one exception,
which `validate_eq_ok_iff_closed` leaves out because it is never looked at: the
fields of the other model that a relation refers to. They may be any names at all.

A data model that does not pass is answered with one of its defects. Here a defect
is described on its own, without the order in which validation looks for them, and
every error turns out to be one. The order shows in a second statement only: the
models in front of the one that is blamed have no defect of any kind. Most of the
work is in the two searches behind it, for a name that occurs twice and for a name
that no field has.
-/

namespace Scaffold.Schema

/-- A name that is reported as repeated occurs twice, unless it was seen before. -/
theorem of_firstRepeat?_eq_some [DecidableEq α] {seen entries : List α} {x : α}
    (h : firstRepeat? seen entries = some x) : x ∈ entries ∧ (x ∈ seen ∨ 2 ≤ entries.count x) := by
  induction entries generalizing seen with
  | nil => cases h
  | cons first rest ih =>
      rw [firstRepeat?] at h
      split at h
      · next hseen =>
          cases h
          exact ⟨by simp, .inl hseen⟩
      · next hfresh =>
          obtain ⟨hmem, hcases⟩ := ih h
          refine ⟨List.mem_cons_of_mem _ hmem, ?_⟩
          rcases hcases with hseen | hcount
          · rcases List.mem_cons.mp hseen with rfl | hseen
            · -- The entry itself is the earlier of the two.
              have hrest := List.count_pos_iff.mpr hmem
              rw [List.count_cons_self]
              exact .inr (by omega)
            · exact .inl hseen
          · have hle := List.count_le_count_cons (a := x) (b := first) (l := rest)
            exact .inr (by omega)

theorem two_le_count_of_firstRepeat? [DecidableEq α] {entries : List α} {x : α}
    (h : firstRepeat? [] entries = some x) : 2 ≤ entries.count x := by
  obtain ⟨-, hseen | hcount⟩ := of_firstRepeat?_eq_some h
  · cases hseen
  · exact hcount

namespace Model

variable {m : Model}

/-- The names of fields that a model mentions in its own declaration: in its key, in
its unique indexes, and as the fields of it that hold the reference of a relation. -/
inductive Mentions (m : Model) : String → Prop
  | key {listed : PrimaryKey} {name : String} (hkey : m.primaryKey = some listed)
      (hname : name ∈ listed.fields) : Mentions m name
  | uniqueIndex {index : UniqueIndex} {name : String} (hindex : index ∈ m.uniqueIndexes)
      (hname : name ∈ index.fields) : Mentions m name
  | reference {f : Field} {r : Relation} {name : String} (hf : f ∈ m.fields)
      (hrelation : f.relation? = some r) (hname : name ∈ r.fromFields) : Mentions m name

/-- A model is sound if its fields have distinct names and are all that it mentions. -/
theorem sound_iff :
    m.Sound ↔ (m.fields.map Field.name).Nodup ∧
      ∀ name, m.Mentions name → ∃ f ∈ m.fields, f.name = name := by
  constructor
  · intro h
    refine ⟨h.fieldNames, fun name hmentions => ?_⟩
    cases hmentions with
    | key hkey hname => exact exists_key_iff.mp h.key _ hkey name hname
    | uniqueIndex hindex hname => exact h.uniqueIndexes _ hindex name hname
    | reference hf hrelation hname => exact h.references _ hf _ hrelation name hname
  · rintro ⟨hnodup, hknows⟩
    refine ⟨hnodup, exists_key_iff.mpr ?_, ?_, ?_⟩
    · intro listed hlisted name hname
      exact hknows name (.key hlisted hname)
    · intro index hindex name hname
      exact hknows name (.uniqueIndex hindex hname)
    · intro f hf r hrelation name hname
      exact hknows name (.reference hf hrelation hname)

end Model

namespace Datamodel

/-- Distinct names, and a declaration for every name that validation follows. -/
structure Closed (d : Datamodel) : Prop where
  enumNames : (d.enums.map Enumeration.name).Nodup
  modelNames : (d.models.map Model.name).Nodup
  fieldNames : ∀ m ∈ d.models, (m.fields.map Field.name).Nodup
  fields : ∀ m ∈ d.models, ∀ name, m.Mentions name → ∃ f ∈ m.fields, f.name = name
  enums : ∀ m ∈ d.models, ∀ f ∈ m.fields, ∀ name, f.kind = .enumeration name →
    ∃ e ∈ d.enums, e.name = name
  models : ∀ m ∈ d.models, ∀ f ∈ m.fields, ∀ r, f.kind = .relation r →
    ∃ target ∈ d.models, target.name = r.model

/-- The fields that relations refer to are fields of the models they refer to. -/
def TargetsDeclared (d : Datamodel) : Prop :=
  ∀ m ∈ d.models, ∀ f ∈ m.fields, ∀ r, f.kind = .relation r → ∀ name ∈ r.toFields,
    ∃ target ∈ d.models, target.name = r.model ∧ ∃ g ∈ target.fields, g.name = name

variable {d : Datamodel}

theorem declares_iff {kind : Kind} :
    d.Declares kind ↔
      (∀ name, kind = .enumeration name → ∃ e ∈ d.enums, e.name = name) ∧
        ∀ r, kind = .relation r → ∃ target ∈ d.models, target.name = r.model := by
  cases kind with
  | scalar type => simp [Declares]
  | object name => simp [Declares]
  | enumeration name => simp [Declares]
  | relation r => simp [Declares]

theorem sound_iff_closed : d.Sound ↔ d.Closed := by
  constructor
  · intro h
    exact ⟨h.enumNames, h.modelNames,
      fun m hm => (Model.sound_iff.mp (h.models m hm)).1,
      fun m hm => (Model.sound_iff.mp (h.models m hm)).2,
      fun m hm f hf => (declares_iff.mp (h.types m hm f hf)).1,
      fun m hm f hf => (declares_iff.mp (h.types m hm f hf)).2⟩
  · intro h
    exact ⟨h.enumNames, h.modelNames,
      fun m hm => Model.sound_iff.mpr ⟨h.fieldNames m hm, h.fields m hm⟩,
      fun m hm f hf => declares_iff.mpr ⟨h.enums m hm f hf, h.models m hm f hf⟩⟩

theorem validate_eq_ok_iff_closed (d : Datamodel) : d.validate = .ok () ↔ d.Closed :=
  validate_eq_ok_iff.trans sound_iff_closed

/-- A post refers to its author by a field that authors do not have. -/
def danglingDatamodel : Datamodel where
  enums := []
  models := [
    .plain "User" [(Field.plain "id" (.scalar .int)).asId],
    .plain "Post" [
      Field.plain "authorId" (.scalar .int),
      Field.plain "author" (.relation ⟨"User", "PostToUser", ["authorId"], ["nope"]⟩)]]

theorem danglingDatamodel_accepted :
    danglingDatamodel.validate = .ok () ∧ ¬ danglingDatamodel.TargetsDeclared := by
  refine ⟨by decide, fun h => ?_⟩
  have hauthor : ∃ target ∈ danglingDatamodel.models,
      target.name = "User" ∧ ∃ g ∈ target.fields, g.name = "nope" :=
    h _ (.tail _ (.head _)) _ (.tail _ (.head _)) _ rfl "nope" (.head _)
  revert hauthor
  decide

/-- What can be wrong with a model of a data model, and the error that says so. -/
inductive Defect (d : Datamodel) (m : Model) : Error → Prop
  | repeatedField {name : String} (h : 2 ≤ (m.fields.map Field.name).count name) :
      Defect d m (.duplicateName .field (.repeated (m.name ++ "." ++ name)))
  | unknownField {name : String} (hmentions : m.Mentions name)
      (hunknown : ∀ f ∈ m.fields, f.name ≠ name) : Defect d m (.fieldNotFound m.name name)
  | unknownEnum {f : Field} {name : String} (hf : f ∈ m.fields)
      (hkind : f.kind = .enumeration name) (hunknown : ∀ e ∈ d.enums, e.name ≠ name) :
      Defect d m (.enumNotFound m.name f.name name)
  | unknownModel {f : Field} {r : Relation} (hf : f ∈ m.fields) (hkind : f.kind = .relation r)
      (hunknown : ∀ other ∈ d.models, other.name ≠ r.model) :
      Defect d m (.modelNotFound r.model (m.name ++ "." ++ f.name))

theorem not_defect_of_sound {m : Model} (hsound : m.Sound)
    (htypes : ∀ f ∈ m.fields, d.Declares f.kind) (e : Error) : ¬ d.Defect m e := by
  obtain ⟨hnodup, hknows⟩ := Model.sound_iff.mp hsound
  intro hdefect
  cases hdefect with
  | @repeatedField name h =>
      have hone := List.nodup_iff_count_le_one.mp hnodup name
      omega
  | @unknownField name hmentions hunknown =>
      obtain ⟨f, hf, hname⟩ := hknows name hmentions
      exact hunknown f hf hname
  | unknownEnum hf hkind hunknown =>
      obtain ⟨e, he, hname⟩ := (declares_iff.mp (htypes _ hf)).1 _ hkind
      exact hunknown e he hname
  | unknownModel hf hkind hunknown =>
      obtain ⟨other, hother, hname⟩ := (declares_iff.mp (htypes _ hf)).2 _ hkind
      exact hunknown other hother hname

theorem defect_of_firstUnknown? {m : Model} {names : List String} {name : String}
    (hmentions : ∀ name ∈ names, m.Mentions name) (h : m.firstUnknown? names = some name) :
    d.Defect m (.fieldNotFound m.name name) := by
  obtain ⟨before, after, rfl, -, hunknown⟩ := Model.firstUnknown?_eq_some_iff.mp h
  exact .unknownField (hmentions name (List.mem_append_right _ List.mem_cons_self)) hunknown

theorem defect_of_unknownField? {m : Model} {names : List String} {e : Error}
    (hmentions : ∀ name ∈ names, m.Mentions name) (h : m.unknownField? names = some e) :
    d.Defect m e := by
  obtain ⟨name, hfind, rfl⟩ := Option.map_eq_some_iff.mp h
  exact defect_of_firstUnknown? hmentions hfind

theorem defect_of_key {m : Model} {e : Error} (h : m.key = .error e) : d.Defect m e := by
  obtain ⟨listed, name, hlisted, hunknown, rfl⟩ := Model.exists_of_key_eq_error h
  exact defect_of_firstUnknown? (fun _ => .key hlisted) hunknown

theorem defect_of_model_defect? {m : Model} {e : Error} (h : m.defect? = some e) :
    d.Defect m e := by
  rw [Model.defect?] at h
  split at h
  · next name hrepeat =>
      cases h
      exact .repeatedField (two_le_count_of_firstRepeat? hrepeat)
  · split at h
    · next e' hkey =>
        cases h
        exact defect_of_key hkey
    · rcases (Option.orElse_eq_some _ _ _).mp h with hindex | ⟨-, hreference⟩
      · obtain ⟨index, hmem, hunknown⟩ := List.exists_of_findSome?_eq_some hindex
        exact defect_of_unknownField? (fun _ => .uniqueIndex hmem) hunknown
      · obtain ⟨f, hf, hbind⟩ := List.exists_of_findSome?_eq_some hreference
        obtain ⟨r, hrelation, hunknown⟩ := Option.bind_eq_some_iff.mp hbind
        exact defect_of_unknownField? (fun _ => .reference (List.mem_filter.mp hf).1 hrelation)
          hunknown

theorem defect_of_undeclaredType? {m : Model} {f : Field} {e : Error} (hf : f ∈ m.fields)
    (h : d.undeclaredType? m f = some e) : d.Defect m e := by
  rw [undeclaredType?] at h
  split at h
  · next name hkind =>
      split at h
      · cases h
      · next hnone =>
          cases h
          rw [Option.not_isSome_iff_eq_none, enum?, List.find?_eq_none] at hnone
          exact .unknownEnum hf hkind fun e he hname => hnone e he (by simpa using hname)
  · next r hkind =>
      split at h
      · cases h
      · next hnone =>
          cases h
          rw [Option.not_isSome_iff_eq_none, model?, List.find?_eq_none] at hnone
          exact .unknownModel hf hkind fun m hm hname => hnone m hm (by simpa using hname)
  · cases h
  · cases h

/-- An error of validation is a defect. Names of enums come first, then names of models, and
where both are distinct the defect is one of the first model that has any. -/
theorem defect_of_validate_eq_error {d : Datamodel} {e : Error} (h : d.validate = .error e) :
    (∃ name, 2 ≤ (d.enums.map Enumeration.name).count name ∧
      e = .duplicateName .enumeration (.repeated name)) ∨
    ((d.enums.map Enumeration.name).Nodup ∧
      ∃ name, 2 ≤ (d.models.map Model.name).count name ∧
        e = .duplicateName .model (.repeated name)) ∨
    ((d.enums.map Enumeration.name).Nodup ∧ (d.models.map Model.name).Nodup ∧
      ∃ before m after, d.models = before ++ m :: after ∧ d.Defect m e ∧
        ∀ earlier ∈ before, ∀ e', ¬ d.Defect earlier e') := by
  have hdefect : d.defect? = some e := by
    rw [validate] at h
    split at h
    · next e' hsome =>
        cases h
        exact hsome
    · cases h
  rw [defect?] at hdefect
  split at hdefect
  · next name hrepeat =>
      cases hdefect
      exact .inl ⟨name, two_le_count_of_firstRepeat? hrepeat, rfl⟩
  · next henums =>
      have henumNames := (firstRepeat?_eq_none_iff.mp henums).1
      split at hdefect
      · next name hrepeat =>
          cases hdefect
          exact .inr (.inl ⟨henumNames, name, two_le_count_of_firstRepeat? hrepeat, rfl⟩)
      · next hmodels =>
          have hmodelNames := (firstRepeat?_eq_none_iff.mp hmodels).1
          obtain ⟨before, m, after, hsplit, hfirst, hbefore⟩ :=
            List.findSome?_eq_some_iff.mp hdefect
          refine .inr (.inr ⟨henumNames, hmodelNames, before, m, after, hsplit, ?_, ?_⟩)
          · rcases (Option.orElse_eq_some _ _ _).mp hfirst with hown | ⟨-, htype⟩
            · exact defect_of_model_defect? hown
            · obtain ⟨f, hf, htype⟩ := List.exists_of_findSome?_eq_some htype
              exact defect_of_undeclaredType? hf htype
          · intro earlier hearlier
            obtain ⟨hown, htypes⟩ := (Option.orElse_eq_none _ _).mp (hbefore earlier hearlier)
            refine not_defect_of_sound (Model.defect?_eq_none_iff.mp hown) fun f hf => ?_
            exact undeclaredType?_eq_none_iff.mp (List.findSome?_eq_none_iff.mp htypes f hf)

/-- The second model has two defects of its own and the third repeats a name. -/
def faultyDatamodel : Datamodel where
  enums := []
  models := [
    .plain "User" [(Field.plain "id" (.scalar .int)).asId],
    (Model.plain "Post" [Field.plain "author" (.relation ⟨"Writer", "PostToWriter", [], []⟩)]
      ).withPrimaryKey ⟨none, ["author", "number"]⟩,
    .plain "Tag" [Field.plain "text" (.scalar .string), Field.plain "text" (.scalar .string)]]

theorem faultyDatamodel_defect :
    faultyDatamodel.validate = .error (.fieldNotFound "Post" "number") ∧
      ((∃ name, 2 ≤ (faultyDatamodel.enums.map Enumeration.name).count name ∧
        Error.fieldNotFound "Post" "number" = .duplicateName .enumeration (.repeated name)) ∨
      ((faultyDatamodel.enums.map Enumeration.name).Nodup ∧
        ∃ name, 2 ≤ (faultyDatamodel.models.map Model.name).count name ∧
          Error.fieldNotFound "Post" "number" = .duplicateName .model (.repeated name)) ∨
      ((faultyDatamodel.enums.map Enumeration.name).Nodup ∧
        (faultyDatamodel.models.map Model.name).Nodup ∧
        ∃ before m after, faultyDatamodel.models = before ++ m :: after ∧
          faultyDatamodel.Defect m (.fieldNotFound "Post" "number") ∧
          ∀ earlier ∈ before, ∀ e', ¬ faultyDatamodel.Defect earlier e')) := by
  have hvalidate : faultyDatamodel.validate = .error (.fieldNotFound "Post" "number") := by
    decide
  exact ⟨hvalidate, defect_of_validate_eq_error hvalidate⟩

end Datamodel

end Scaffold.Schema
