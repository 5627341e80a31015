import Mathlib.Data.List.Nodup
import Scaffold.Proofs.Defects
import Scaffold.Proofs.Tree

/-!
# What a key is made of

A model may name its key in two ways, by a list of fields and by marking a field as identifying.
`AddressedBy` says which key follows from a declaration: a list goes before a mark, a list of one
name means that field, and a longer list a compound key. `key` resolves a declaration accordingly,
or it is the first unknown name of the list that is reported; there is no third outcome.

A compound key has two orders. Its fields stand as the model declares them, and only its selector,
where it has no name of its own, is spelled in the order of the list. So the list may be put into
another order without a change to the fields of the key, and nothing in the file of an entity is
made from the selector.
-/

namespace Scaffold

open Naming (Name)

namespace Schema

namespace Model

variable {m : Model}

/-- The key that follows from the declaration of a model, if any does. -/
inductive AddressedBy (m : Model) : Option Key → Prop
  | composite {listed : PrimaryKey} {fields : List Field} (hlisted : m.primaryKey = some listed)
      (hseveral : 2 ≤ listed.fields.length) (hknown : m.Knows listed.fields)
      (horder : fields.Sublist m.fields) (hdistinct : (fields.map Field.name).Nodup)
      (hmem : ∀ f ∈ m.fields, f ∈ fields ↔ f.name ∈ listed.fields) :
      AddressedBy m (some (.composite listed.selector fields))
  | listed {label : Option String} {f : Field} (hlisted : m.primaryKey = some ⟨label, [f.name]⟩)
      (hf : f ∈ m.fields) : AddressedBy m (some (.single f))
  | identifier {before after : List Field} {f : Field} (hnone : m.ListsNoKey)
      (hfields : m.fields = before ++ f :: after) (hid : f.isId = true)
      (hfirst : ∀ g ∈ before, g.isId = false) : AddressedBy m (some (.single f))
  | nothing (hnone : m.ListsNoKey) (hfields : ∀ f ∈ m.fields, f.isId = false) : AddressedBy m none

/-- The first name in the compound key that no field has, and the error that names it. -/
inductive KeyFault (m : Model) : Error → Prop
  | unknown {listed : PrimaryKey} {before after : List String} {name : String}
      (hlisted : m.primaryKey = some listed) (hfields : listed.fields = before ++ name :: after)
      (hbefore : m.Knows before) (hname : ∀ f ∈ m.fields, f.name ≠ name) :
      KeyFault m (.fieldNotFound m.name name)

theorem key_eq_error_iff {e : Error} : m.key = .error e ↔ m.KeyFault e := by
  constructor
  · intro he
    obtain ⟨listed, name, hlisted, hunknown, rfl⟩ := exists_of_key_eq_error he
    obtain ⟨before, after, hfields, hbefore, hname⟩ := firstUnknown?_eq_some_iff.mp hunknown
    exact .unknown hlisted hfields hbefore hname
  · rintro ⟨hlisted, hfields, hbefore, hname⟩
    exact key_of_unknown hlisted
      (firstUnknown?_eq_some_iff.mpr ⟨_, _, hfields, hbefore, hname⟩)

/-- The field of a name is the only one that has it. -/
theorem field?_name (hnodup : (m.fields.map Field.name).Nodup) {f : Field} (hf : f ∈ m.fields) :
    m.field? f.name = some f := by
  cases hfind : m.field? f.name with
  | none => simpa using List.find?_eq_none.mp hfind f hf
  | some g =>
      have hname : g.name = f.name := by simpa using List.find?_some hfind
      rw [List.inj_on_of_nodup_map hnodup (List.mem_of_find?_eq_some hfind) hf hname]

/-- Fields in the order of a model are picked out by a condition that holds of them alone. -/
theorem eq_filter_of_sublist (hnodup : (m.fields.map Field.name).Nodup) {fields : List Field}
    {p : Field → Bool} (horder : fields.Sublist m.fields)
    (hmem : ∀ f ∈ m.fields, f ∈ fields ↔ p f = true) : fields = m.fields.filter p := by
  have hkept : fields.filter p = fields :=
    List.filter_eq_self.mpr fun f hf => (hmem f (horder.subset hf)).mp hf
  have hsublist : fields.Sublist (m.fields.filter p) := hkept ▸ horder.filter p
  have hperm : fields.Perm (m.fields.filter p) := by
    have hfields := hnodup.of_map Field.name
    refine (List.perm_ext_iff_of_nodup (hfields.sublist horder) (hfields.filter p)).mpr fun f => ?_
    rw [List.mem_filter]
    constructor
    · intro hf
      exact ⟨horder.subset hf, (hmem f (horder.subset hf)).mp hf⟩
    · rintro ⟨hf, hp⟩
      exact (hmem f hf).mpr hp
  exact hsublist.eq_of_length hperm.length_eq

theorem key_eq_ok_iff (hnodup : (m.fields.map Field.name).Nodup) {key : Option Key} :
    m.key = .ok key ↔ m.AddressedBy key := by
  constructor
  · intro hkey
    rcases m.key_cases with hnone | ⟨listed, name, hlisted, hunknown⟩ |
      ⟨label, name, hlisted, hknown⟩ | ⟨listed, hlisted, hseveral, hknown⟩
    · rw [key_of_listsNoKey hnone] at hkey
      cases hkey
      cases hfind : m.fields.find? Field.isId with
      | none =>
          refine .nothing hnone fun f hf => ?_
          simpa using List.find?_eq_none.mp hfind f hf
      | some f =>
          obtain ⟨hid, before, after, hfields, hfirst⟩ := List.find?_eq_some_iff_append.mp hfind
          exact .identifier hnone hfields hid fun g hg => by simpa using hfirst g hg
    · rw [key_of_unknown hlisted hunknown] at hkey
      cases hkey
    · obtain ⟨f, hf, rfl⟩ := hknown name List.mem_cons_self
      rw [key_of_single hlisted hknown, field?_name hnodup hf] at hkey
      cases hkey
      exact .listed hlisted hf
    · rw [key_of_several hlisted hseveral hknown] at hkey
      cases hkey
      refine .composite hlisted hseveral hknown List.filter_sublist
        (hnodup.sublist (List.filter_sublist.map Field.name)) fun f hf => ?_
      rw [List.mem_filter, and_iff_right hf, List.contains_iff_mem]
  · intro haddressed
    cases haddressed with
    | composite hlisted hseveral hknown horder hdistinct hmem =>
        rw [key_of_several hlisted hseveral hknown, eq_filter_of_sublist hnodup horder]
        intro f hf
        rw [hmem f hf, List.contains_iff_mem]
    | @listed label f hlisted hf =>
        have hknown : m.Knows [f.name] := by
          intro name hname
          exact ⟨f, hf, (List.mem_singleton.mp hname).symm⟩
        rw [key_of_single hlisted hknown, field?_name hnodup hf]
        rfl
    | @identifier before after f hnone hfields hid hfirst =>
        have hfind : m.fields.find? Field.isId = some f :=
          List.find?_eq_some_iff_append.mpr
            ⟨hid, before, after, hfields, fun g hg => by simpa using hfirst g hg⟩
        rw [key_of_listsNoKey hnone, hfind]
        rfl
    | nothing hnone hfields =>
        have hfind : m.fields.find? Field.isId = none :=
          List.find?_eq_none.mpr fun f hf => by simpa using hfields f hf
        rw [key_of_listsNoKey hnone, hfind]
        rfl

variable {label : Option String} {names names' : List String}

theorem Knows.of_perm (h : m.Knows names) (hperm : names'.Perm names) : m.Knows names' :=
  fun name hname => h name (hperm.mem_iff.mp hname)

/-- With its list in another order a key has the same fields. -/
theorem exists_key_of_perm (hlisted : m.primaryKey = some ⟨label, names⟩)
    (hseveral : 2 ≤ names.length) (hperm : names'.Perm names) (hknown : m.Knows names) :
    ∃ fields, m.key = .ok (some (.composite (PrimaryKey.mk label names).selector fields)) ∧
      (m.withPrimaryKey ⟨label, names'⟩).key =
        .ok (some (.composite (PrimaryKey.mk label names').selector fields)) := by
  have hsame : ∀ f : Field, names'.contains f.name = names.contains f.name := fun f =>
    hperm.contains_eq
  refine ⟨_, key_of_several hlisted hseveral hknown, ?_⟩
  rw [key_of_several (m := m.withPrimaryKey ⟨label, names'⟩) rfl (hperm.length_eq ▸ hseveral)
    (hknown.of_perm hperm)]
  simp only [hsame]
  rfl

/-- With its list in another order an unresolved key stays unresolved. -/
theorem exists_error_of_perm (hlisted : m.primaryKey = some ⟨label, names⟩)
    (hperm : names'.Perm names) (hunknown : ¬ m.Knows names) :
    (∃ e, m.key = .error e) ∧ ∃ e, (m.withPrimaryKey ⟨label, names'⟩).key = .error e := by
  have herror : ∀ {m : Model} {listed : PrimaryKey}, m.primaryKey = some listed →
      ¬ m.Knows listed.fields → ∃ e, m.key = .error e := by
    intro m listed hlisted hunknown
    rw [← firstUnknown?_eq_none_iff] at hunknown
    obtain ⟨name, hname⟩ := Option.ne_none_iff_exists'.mp hunknown
    exact ⟨_, key_of_unknown hlisted hname⟩
  refine ⟨herror hlisted hunknown, herror rfl fun hknown => hunknown ?_⟩
  exact Knows.of_perm hknown hperm.symm

end Model

end Schema

namespace Artifact

open Schema

/-- The file of an entity depends on a compound key by its fields alone. -/
theorem entity_withPrimaryKey {c : Context} {m : Model} {n : Name} {listed : PrimaryKey}
    {selector selector' : String} {fields : List Field}
    (hkey : m.key = .ok (some (.composite selector fields)))
    (hkey' : (m.withPrimaryKey listed).key = .ok (some (.composite selector' fields)))
    (d : Datamodel) :
    entity { c with datamodel := d } ⟨m.withPrimaryKey listed, n⟩ = entity c ⟨m, n⟩ := by
  rw [entity, entity, Entity.ofModel, Entity.ofModel, hkey, hkey']
  rfl

/-- No file is made of an entity whose key is not resolved. -/
theorem entity_eq_error_of_key {c : Context} {m : NamedModel} {e : Error}
    (hkey : m.model.key = .error e) : entity c m = .error e := by
  rw [entity, Entity.ofModel, hkey]
  rfl

end Artifact

namespace Schema.Model

/-- A model has the key that follows from its declaration, or the first unknown name of its
compound key is reported. If several names are listed, their order shows in the selector of an
unnamed compound key and in nothing else: the fields of the key are the same, and a data model with
the list in another order gives the model the same file of its entity. -/
theorem key_resolution {m : Model} (hnodup : (m.fields.map Field.name).Nodup) :
    (∀ key, m.key = .ok key ↔ m.AddressedBy key) ∧ (∀ e, m.key = .error e ↔ m.KeyFault e) ∧
      ∀ label names names', m.primaryKey = some ⟨label, names⟩ → 2 ≤ names.length →
        names'.Perm names →
        (m.Knows names → ∃ fields,
          m.key = .ok (some (.composite (label.getD ("_".intercalate names)) fields)) ∧
          (m.withPrimaryKey ⟨label, names'⟩).key =
            .ok (some (.composite (label.getD ("_".intercalate names')) fields))) ∧
        (¬ m.Knows names → (∃ e, m.key = .error e) ∧
          ∃ e, (m.withPrimaryKey ⟨label, names'⟩).key = .error e) ∧
        ∀ enums before after config c,
          Context.ofDatamodel ⟨enums, before ++ m :: after⟩ config = .ok c →
          ∃ c', Context.ofDatamodel
              ⟨enums, before ++ m.withPrimaryKey ⟨label, names'⟩ :: after⟩ config = .ok c' ∧
            ∀ paths n file,
              Artifact.entity { c' with clientPaths := paths }
                  ⟨m.withPrimaryKey ⟨label, names'⟩, n⟩ = .ok file ↔
                Artifact.entity { c with clientPaths := paths } ⟨m, n⟩ = .ok file := by
  refine ⟨fun key => key_eq_ok_iff hnodup, fun e => key_eq_error_iff, ?_⟩
  intro label names names' hlisted hseveral hperm
  refine ⟨exists_key_of_perm hlisted hseveral hperm, exists_error_of_perm hlisted hperm, ?_⟩
  intro enums before after config c hc
  have hmodels : (before ++ m.withPrimaryKey ⟨label, names'⟩ :: after).map Model.name =
      (before ++ m :: after).map Model.name := by
    rw [List.map_append, List.map_append]
    rfl
  obtain ⟨-, rfl, -⟩ := Context.ofDatamodel_spec hc
  refine ⟨_, Context.ofDatamodel_of_names hc hmodels rfl, fun paths n file => ?_⟩
  by_cases hknown : m.Knows names
  · obtain ⟨fields, hkey, hkey'⟩ := exists_key_of_perm hlisted hseveral hperm hknown
    rw [← Artifact.entity_withPrimaryKey (c := { c with clientPaths := paths }) hkey hkey']
  · obtain ⟨⟨e, he⟩, e', he'⟩ := exists_error_of_perm hlisted hperm hknown
    rw [Artifact.entity_eq_error_of_key (m := ⟨m, n⟩) he,
      Artifact.entity_eq_error_of_key (m := ⟨m.withPrimaryKey ⟨label, names'⟩, n⟩) he']
    exact iff_of_false nofun nofun

/-- A model whose compound key repeats a name and passes over the identifying field. -/
def ticketModel : Model :=
  (Model.plain "Ticket" [
    (Field.plain "id" (.scalar .int)).asId,
    Field.plain "project" (.scalar .string),
    Field.plain "number" (.scalar .int)]).withPrimaryKey ⟨none, ["number", "project", "number"]⟩

theorem key_resolution_ticketModel :
    (ticketModel.fields.map Field.name).Nodup ∧
      ∃ fields, ticketModel.key = .ok (some (.composite "number_project_number" fields)) ∧
        (ticketModel.withPrimaryKey ⟨none, ["project", "number", "number"]⟩).key =
          .ok (some (.composite "project_number_number" fields)) ∧
        fields.map Field.name = ["project", "number"] ∧
        ticketModel.AddressedBy (some (.composite "number_project_number" fields)) ∧
        ∃ c' n file, Context.ofDatamodel
            ⟨[], [ticketModel.withPrimaryKey ⟨none, ["project", "number", "number"]⟩]⟩ .standard =
              .ok c' ∧
          Artifact.entity c'
              ⟨ticketModel.withPrimaryKey ⟨none, ["project", "number", "number"]⟩, n⟩ = .ok file ∧
            file.path = ⟨"ticket/TicketBase.ts"⟩ := by
  have hnodup : (ticketModel.fields.map Field.name).Nodup := by decide
  obtain ⟨haddressed, -, horders⟩ := key_resolution hnodup
  obtain ⟨hfields, -, hfiles⟩ := horders none ["number", "project", "number"]
    ["project", "number", "number"] rfl (by decide) (by decide)
  have hticket : ticketModel.key =
      .ok (some (.composite "number_project_number" (ticketModel.fields.drop 1))) := rfl
  obtain ⟨fields, hkey, hkey'⟩ := hfields ((exists_key_iff.mp ⟨_, hticket⟩) _ rfl)
  cases hkey.symm.trans hticket
  obtain ⟨c, n, file, hcontext, -, hfile, hpath⟩ : ∃ c n file,
      Context.ofDatamodel ⟨[], [ticketModel]⟩ .standard = .ok c ∧
        Name.ofIdentifier "Ticket" = .ok n ∧
        Artifact.entity { c with clientPaths := none } ⟨ticketModel, n⟩ = .ok file ∧
        file.path = ⟨"ticket/TicketBase.ts"⟩ := ⟨_, _, _, rfl, rfl, rfl, by decide⟩
  obtain ⟨c', hcontext', hsame⟩ := hfiles [] [] [] .standard c hcontext
  exact ⟨hnodup, _, hkey, hkey', rfl, (haddressed _).mp hkey, _, n, file, hcontext',
    (hsame c'.clientPaths n file).mpr hfile, hpath⟩

end Schema.Model

end Scaffold
