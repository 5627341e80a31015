import Mathlib.Data.List.Pairwise
import Scaffold.Context
import Scaffold.Proofs.Fallible
import Scaffold.Proofs.Spelling

/-!
# Tables of names

A table that was built for a list of names holds the spelling of each of them, in
order, and no two of its entries share an identifier, a Pascal form or a camel form.
Both halves are one equivalence, `ofNames_eq_ok_iff`, and the induction behind it
is on the names still to be added: an entry that is added is apart from all entries
before it, because `clash?` looked at each of them.

What the rest of the development uses is the consequence for look-ups. A look-up by
a declared name finds an entry, and two entries with one Pascal form or one camel
form are one entry.
-/

namespace Scaffold

open Document (Environment Options)
open Naming (Name)
open Schema

/-- Names that share no spelling by which files or declarations are called. -/
structure Naming.Name.Apart (a b : Name) : Prop where
  identifier : a.identifier ≠ b.identifier
  pascal : a.pascal ≠ b.pascal
  camel : a.camel ≠ b.camel

instance : Std.Symm Name.Apart :=
  ⟨fun _ _ h => ⟨h.identifier.symm, h.pascal.symm, h.camel.symm⟩⟩

namespace NameTable

/-- A table of the spellings of some names, pairwise apart. -/
structure Spells (table : NameTable) (names : List String) : Prop where
  spelled : List.Forall₂ (fun name n => Name.ofIdentifier name = .ok n) names table
  apart : table.Pairwise Name.Apart

theorem clash?_eq_none_iff {declared : Declared} {earlier : NameTable} {name : Name} :
    clash? declared earlier name = none ↔ ∀ n ∈ earlier, n.Apart name := by
  rw [clash?]
  constructor
  · intro h n hn
    split at h
    · cases h
    · next hid =>
        split at h
        · cases h
        · next hpascal =>
            split at h
            · cases h
            · next hcamel =>
                rw [Bool.not_eq_true, Option.isSome_eq_false_iff, Option.isNone_iff_eq_none,
                  find?, List.find?_eq_none] at hid
                exact ⟨by simpa using hid n hn,
                  by simpa using List.find?_eq_none.mp hpascal n hn,
                  by simpa using List.find?_eq_none.mp hcamel n hn⟩
  · intro h
    have hid : earlier.find? name.identifier = none :=
      List.find?_eq_none.mpr fun n hn => by simpa using (h n hn).identifier
    have hpascal : List.find? (fun n => n.pascal = name.pascal) earlier = none :=
      List.find?_eq_none.mpr fun n hn => by simpa using (h n hn).pascal
    have hcamel : List.find? (fun n => n.camel = name.camel) earlier = none :=
      List.find?_eq_none.mpr fun n hn => by simpa using (h n hn).camel
    rw [hid, hpascal, hcamel]
    rfl

theorem extend_eq_ok_iff {declared : Declared} {table result : NameTable}
    {names : List String} :
    extend declared table names = .ok result ↔
      ∃ added, result = table ++ added ∧ Spells added names ∧
        ∀ n ∈ table, ∀ a ∈ added, n.Apart a := by
  induction names generalizing table with
  | nil =>
      rw [extend, Except.ok.injEq]
      constructor
      · rintro rfl
        exact ⟨[], by simp, ⟨.nil, .nil⟩, by simp⟩
      · rintro ⟨added, rfl, hspells, -⟩
        rw [List.forall₂_nil_left_iff.mp hspells.spelled, List.append_nil]
  | cons name names ih =>
      rw [extend, bind_eq_ok]
      constructor
      · rintro ⟨first, hfirst, hrest⟩
        split at hrest
        · cases hrest
        · next hclash =>
            obtain ⟨added, rfl, hspells, hapart⟩ := ih.mp hrest
            refine ⟨first :: added, by simp, ⟨.cons hfirst hspells.spelled, ?_⟩, ?_⟩
            · exact List.pairwise_cons.mpr
                ⟨fun a ha => hapart first (by simp) a ha, hspells.apart⟩
            · intro n hn a ha
              rcases List.mem_cons.mp ha with rfl | ha
              · exact clash?_eq_none_iff.mp hclash n hn
              · exact hapart n (by simp [hn]) a ha
      · rintro ⟨added, rfl, hspells, hapart⟩
        obtain ⟨first, rest, hfirst, hrest, rfl⟩ :=
          List.forall₂_cons_left_iff.mp hspells.spelled
        obtain ⟨hhead, htail⟩ := List.pairwise_cons.mp hspells.apart
        have hclash : clash? declared table first = none :=
          clash?_eq_none_iff.mpr fun n hn => hapart n hn first (by simp)
        refine ⟨first, hfirst, ?_⟩
        rw [hclash]
        refine ih.mpr ⟨rest, by simp, ⟨hrest, htail⟩, ?_⟩
        intro n hn a ha
        rcases List.mem_append.mp hn with hn | hn
        · exact hapart n hn a (by simp [ha])
        · rw [List.mem_singleton.mp hn]
          exact hhead a ha

/-- A table can be built for some names exactly if it spells them. -/
theorem ofNames_eq_ok_iff {declared : Declared} {table : NameTable} {names : List String} :
    ofNames declared names = .ok table ↔ table.Spells names := by
  rw [ofNames, extend_eq_ok_iff]
  constructor
  · rintro ⟨added, rfl, hspells, -⟩
    simpa using hspells
  · intro hspells
    exact ⟨table, by simp, hspells, by simp⟩

namespace Spells

variable {table : NameTable} {names : List String}

theorem ofIdentifier_identifier (h : table.Spells names) {n : Name} (hn : n ∈ table) :
    Name.ofIdentifier n.identifier = .ok n := by
  obtain ⟨i, hi, rfl⟩ := List.getElem_of_mem hn
  have hlength := h.spelled.length_eq
  have hname := h.spelled.get (by omega) hi
  have hidentifier := Naming.identifier_of_ofIdentifier hname
  rw [List.get_eq_getElem, List.get_eq_getElem] at hname hidentifier
  rw [hidentifier]
  exact hname

theorem wellSpelled (h : table.Spells names) {n : Name} (hn : n ∈ table) : n.WellSpelled :=
  Naming.wellSpelled_of_ofIdentifier (h.ofIdentifier_identifier hn)

theorem map_identifier (h : table.Spells names) : table.map Name.identifier = names := by
  have hsame : List.Forall₂ (fun n name => n = name) (table.map Name.identifier) names :=
    List.forall₂_map_left_iff.mpr
      (h.spelled.imp fun _ _ hname => Naming.identifier_of_ofIdentifier hname).flip
  exact List.forall₂_eq_eq_eq ▸ hsame

theorem nodup (h : table.Spells names) : names.Nodup := by
  rw [← h.map_identifier, List.nodup_iff_pairwise_ne, List.pairwise_map]
  exact h.apart.imp Name.Apart.identifier

theorem apart_of_ne (h : table.Spells names) {a b : Name} (ha : a ∈ table) (hb : b ∈ table)
    (hne : a ≠ b) : a.Apart b :=
  h.apart.forall ha hb hne

theorem eq_of_pascal_eq (h : table.Spells names) {a b : Name} (ha : a ∈ table)
    (hb : b ∈ table) (heq : a.pascal = b.pascal) : a = b := by
  by_contra hne
  exact (h.apart_of_ne ha hb hne).pascal heq

theorem find?_identifier (h : table.Spells names) {n : Name} (hn : n ∈ table) :
    table.find? n.identifier = some n := by
  cases hfind : table.find? n.identifier with
  | none =>
      have hnone := List.find?_eq_none.mp hfind n hn
      simp at hnone
  | some m =>
      have hm : m ∈ table := List.mem_of_find?_eq_some hfind
      have hid : m.identifier = n.identifier := by simpa using List.find?_some hfind
      by_contra hne
      exact (h.apart_of_ne hm hn (by simpa using hne)).identifier hid

theorem find?_eq_some_iff (h : table.Spells names) {name : String} {n : Name} :
    table.find? name = some n ↔ n ∈ table ∧ n.identifier = name := by
  constructor
  · intro hfind
    exact ⟨List.mem_of_find?_eq_some hfind, by simpa using List.find?_some hfind⟩
  · rintro ⟨hn, rfl⟩
    exact h.find?_identifier hn

theorem exists_find? (h : table.Spells names) {name : String} (hname : name ∈ names) :
    ∃ n, table.find? name = some n := by
  rw [← h.map_identifier] at hname
  obtain ⟨n, hn, rfl⟩ := List.mem_map.mp hname
  exact ⟨n, h.find?_identifier hn⟩

/-- Under a declared name stands the spelling of that name. -/
theorem find?_eq_some_of_ofIdentifier (h : table.Spells names) {name : String}
    (hname : name ∈ names) {n : Name} (hn : Name.ofIdentifier name = .ok n) :
    table.find? name = some n := by
  obtain ⟨n', hfind⟩ := h.exists_find? hname
  obtain ⟨hmem, hidentifier⟩ := h.find?_eq_some_iff.mp hfind
  have hn' := h.ofIdentifier_identifier hmem
  rw [hidentifier, hn] at hn'
  rw [hfind, Except.ok.inj hn']

theorem exists_ofIdentifier (h : table.Spells names) {name : String} (hname : name ∈ names) :
    ∃ n, Name.ofIdentifier name = .ok n ∧ n ∈ table := by
  obtain ⟨n, hfind⟩ := h.exists_find? hname
  obtain ⟨hmem, rfl⟩ := h.find?_eq_some_iff.mp hfind
  exact ⟨n, h.ofIdentifier_identifier hmem, hmem⟩

theorem mem_of_ofIdentifier (h : table.Spells names) {name : String} (hname : name ∈ names)
    {n : Name} (hn : Name.ofIdentifier name = .ok n) : n ∈ table :=
  (h.find?_eq_some_iff.mp (h.find?_eq_some_of_ofIdentifier hname hn)).1

theorem isSome_find?_iff (h : table.Spells names) {name : String} :
    (table.find? name).isSome = true ↔ name ∈ names := by
  rw [Option.isSome_iff_exists]
  constructor
  · rintro ⟨n, hfind⟩
    obtain ⟨hn, rfl⟩ := h.find?_eq_some_iff.mp hfind
    exact h.map_identifier ▸ List.mem_map_of_mem hn
  · exact h.exists_find?

/-- Looking up the declared names in order gives the table. -/
theorem forall₂_find? (h : table.Spells names) :
    List.Forall₂ (fun name n => table.find? name = some n) names table := by
  rw [← h.map_identifier, List.forall₂_map_left_iff]
  exact List.forall₂_same.mpr fun n hn => h.find?_identifier hn

end Spells

end NameTable

namespace Context

/-- A context whose tables spell the names of its data model, with no model in the
directory of the enums. -/
structure WellNamed (c : Context) : Prop where
  models : c.modelNames.Spells (c.datamodel.models.map Model.name)
  enums : c.enumNames.Spells (c.datamodel.enums.map Enumeration.name)
  directories : ∀ n ∈ c.modelNames, n.camel ≠ enumDirectory

/-- The place of the client has no part in the names. -/
theorem WellNamed.placed {c : Context} (h : c.WellNamed) (paths : ClientPaths) :
    WellNamed { c with clientPaths := some paths } :=
  ⟨h.models, h.enums, h.directories⟩

theorem ofDatamodel_spec {d : Datamodel} {config : Config} {c : Context}
    (h : ofDatamodel d config = .ok c) :
    c.datamodel = d ∧ c.config = config ∧ c.WellNamed := by
  obtain ⟨modelNames, hmodels, h⟩ := bind_eq_ok.mp h
  obtain ⟨enumNames, henums, h⟩ := bind_eq_ok.mp h
  split at h
  · cases h
  · next hdirectory =>
      cases pure_eq_ok.mp h
      refine ⟨rfl, rfl, NameTable.ofNames_eq_ok_iff.mp hmodels,
        NameTable.ofNames_eq_ok_iff.mp henums, ?_⟩
      intro n hn
      simpa using List.find?_eq_none.mp hdirectory n hn

/-- Contexts are the same for data models with the same names, apart from what they carry along. -/
theorem ofDatamodel_of_names {d d' : Datamodel} {config config' : Config} {c : Context}
    (h : ofDatamodel d config = .ok c)
    (hmodels : d'.models.map Model.name = d.models.map Model.name)
    (henums : d'.enums.map Enumeration.name = d.enums.map Enumeration.name) :
    ofDatamodel d' config' = .ok { c with config := config', datamodel := d' } := by
  obtain ⟨modelNames, hmodelNames, h⟩ := bind_eq_ok.mp h
  obtain ⟨enumNames, henumNames, h⟩ := bind_eq_ok.mp h
  split at h
  · cases h
  · next hfree =>
      cases pure_eq_ok.mp h
      refine bind_eq_ok.mpr ⟨modelNames, hmodels ▸ hmodelNames, ?_⟩
      refine bind_eq_ok.mpr ⟨enumNames, henums ▸ henumNames, ?_⟩
      rw [hfree]
      rfl

/-- A data model has a context exactly if tables for its names can be built and no model
takes the directory of the enums. -/
theorem exists_ofDatamodel_iff {d : Datamodel} {config : Config} :
    (∃ c, ofDatamodel d config = .ok c) ↔
      ∃ modelNames enumNames : NameTable, modelNames.Spells (d.models.map Model.name) ∧
        enumNames.Spells (d.enums.map Enumeration.name) ∧
        ∀ n ∈ modelNames, n.camel ≠ enumDirectory := by
  constructor
  · rintro ⟨c, hc⟩
    obtain ⟨rfl, -, hnamed⟩ := ofDatamodel_spec hc
    exact ⟨c.modelNames, c.enumNames, hnamed.models, hnamed.enums, hnamed.directories⟩
  · rintro ⟨modelNames, enumNames, hmodels, henums, hdirectories⟩
    have hfree : List.find? (fun n => n.camel = enumDirectory) modelNames = none :=
      List.find?_eq_none.mpr fun n hn => by simpa using hdirectories n hn
    refine ⟨⟨config, d, modelNames, enumNames, none⟩, ?_⟩
    refine bind_eq_ok.mpr ⟨modelNames, NameTable.ofNames_eq_ok_iff.mpr hmodels, ?_⟩
    refine bind_eq_ok.mpr ⟨enumNames, NameTable.ofNames_eq_ok_iff.mpr henums, ?_⟩
    rw [hfree]
    rfl

theorem ofOptions_eq_ok {options : Options} {config : Config} {env : Environment}
    {workingDirectory : Path} {c : Context} :
    ofOptions options config env workingDirectory = .ok c ↔
      ∃ paths, ClientPaths.resolve options env workingDirectory = .ok paths ∧
        ∃ unplaced, ofDatamodel options.datamodel config = .ok unplaced ∧
          { unplaced with clientPaths := some paths } = c := by
  simp only [ofOptions, bind_eq_ok, pure_eq_ok]

/-- What is known of the context of a document. -/
theorem ofOptions_spec {options : Options} {config : Config} {env : Environment}
    {workingDirectory : Path} {c : Context}
    (h : ofOptions options config env workingDirectory = .ok c) :
    c.datamodel = options.datamodel ∧ c.config = config ∧ c.WellNamed ∧
      ∃ paths, ClientPaths.resolve options env workingDirectory = .ok paths ∧
        c.clientPaths = some paths := by
  obtain ⟨paths, hpaths, unplaced, hunplaced, rfl⟩ := ofOptions_eq_ok.mp h
  obtain ⟨hdatamodel, hconfig, hnamed⟩ := ofDatamodel_spec hunplaced
  exact ⟨hdatamodel, hconfig, hnamed.placed paths, paths, hpaths, rfl⟩

end Context

end Scaffold
