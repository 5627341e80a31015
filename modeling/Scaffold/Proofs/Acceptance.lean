import Mathlib.Data.List.Find
import Scaffold.Proofs.Collisions

/-!
# Which names are accepted

A data model has a context exactly if all its names can be spelled, the Pascal forms of its models
are distinct, those of its enums are, and no model has the directory of the enums for its own.
Camel forms are compared as well, but that comparison never decides anything: names with one camel
form have one Pascal form, and the Pascal forms are compared first.

A data model without a context is answered with one error, and `NamingFault` says which. It is
about the first name of its kind that cannot stand with the names before it. Since those can all
stand together, the earlier name that is cited beside it is the only one there could be. The same
holds of the model in the directory of the enums: were there two, they would have clashed before.
So it does not matter in which order the spellings are searched for it, and the statements below
are about any order.
-/

namespace Scaffold

open Naming (Name)
open Schema

namespace Naming

theorem ofIdentifier_eq_error {identifier : String} {e : Error} :
    Name.ofIdentifier identifier = .error e ↔
      (∀ n, Name.ofIdentifier identifier ≠ .ok n) ∧ e = .invalidName identifier := by
  rw [Name.ofIdentifier]
  dsimp only
  split
  · next hspell => simp
  · next hspell =>
      rw [Except.error.injEq, eq_comm, and_iff_right]
      intro n hn
      cases hn

/-- A Pascal form tells names apart in all their forms. -/
theorem Name.apart_of_pascal_ne {first second : String} {n m : Name}
    (hn : Name.ofIdentifier first = .ok n) (hm : Name.ofIdentifier second = .ok m)
    (h : n.pascal ≠ m.pascal) : n.Apart m := by
  refine ⟨fun hsame => h ?_, h, fun hcamel => h ((Name.camel_eq_iff hn hm).mp hcamel)⟩
  rw [identifier_of_ofIdentifier hn, identifier_of_ofIdentifier hm] at hsame
  rw [hsame, hm] at hn
  rw [Except.ok.inj hn]

/-- Two identifiers that do not share a Pascal form. -/
def PascalApart (first second : String) : Prop :=
  ∀ n m, Name.ofIdentifier first = .ok n → Name.ofIdentifier second = .ok m → n.pascal ≠ m.pascal

/-- Names that can stand together: each has a spelling, and no two share a Pascal form. -/
structure Compatible (names : List String) : Prop where
  spelled : ∀ name ∈ names, ∃ n, Name.ofIdentifier name = .ok n
  pascal : names.Pairwise PascalApart

end Naming

open Naming (Compatible PascalApart)

namespace NameTable

theorem Spells.compatible {table : NameTable} {names : List String} (h : table.Spells names) :
    Compatible names := by
  refine ⟨fun name hname => ?_, ?_⟩
  · obtain ⟨n, hn, -⟩ := h.exists_ofIdentifier hname
    exact ⟨n, hn⟩
  · exact h.pairwise_apart.imp fun hapart n m hn hm => (hapart n m hn hm).pascal

theorem exists_spells {names : List String} (h : Compatible names) :
    ∃ table : NameTable, table.Spells names := by
  induction names with
  | nil => exact ⟨[], .nil, .nil⟩
  | cons name names ih =>
      obtain ⟨n, hn⟩ := h.spelled name List.mem_cons_self
      obtain ⟨hfirst, hrest⟩ := List.pairwise_cons.mp h.pascal
      obtain ⟨table, htable⟩ :=
        ih ⟨fun other hother => h.spelled other (List.mem_cons_of_mem _ hother), hrest⟩
      refine ⟨n :: table, .cons hn htable.spelled, List.pairwise_cons.mpr ⟨fun m hm => ?_,
        htable.apart⟩⟩
      have hidentifier : m.identifier ∈ names := htable.map_identifier ▸ List.mem_map_of_mem hm
      have hspelled := htable.ofIdentifier_identifier hm
      exact Name.apart_of_pascal_ne hn hspelled (hfirst _ hidentifier n m hn hspelled)

/-! ## The first name in the way

A table grows name by name and fails at the first name that cannot join. `FirstFault` finds
that name without a table: all names before it stand together, and it cannot be spelled or
shares its Pascal form with one of them. -/

/-- How a name and an earlier one with the same Pascal form are cited. -/
def clashOf (earlier name : Name) : NameClash :=
  if earlier.identifier = name.identifier then .repeated name.identifier
  else .sameForm earlier.identifier name.identifier name.pascal

/-- A name gets in the way of the one entry of a table that has its Pascal form. -/
theorem clash?_eq_some_iff {declared : Declared} {table : NameTable} {names : List String}
    (h : table.Spells names) {name : String} {n : Name} (hn : Name.ofIdentifier name = .ok n)
    {e : Error} :
    clash? declared table n = some e ↔
      ∃ m ∈ table, m.pascal = n.pascal ∧ e = .duplicateName declared (clashOf m n) := by
  -- Whatever entry is found with the Pascal form, there is no other.
  have hone : ∀ {m : Name}, m ∈ table → m.pascal = n.pascal →
      (some (Error.duplicateName declared (clashOf m n)) = some e ↔
        ∃ m ∈ table, m.pascal = n.pascal ∧ e = .duplicateName declared (clashOf m n)) := by
    intro m hm hpascal
    rw [Option.some.injEq]
    constructor
    · intro he
      exact ⟨m, hm, hpascal, he.symm⟩
    · rintro ⟨m', hm', hpascal', rfl⟩
      rw [h.eq_of_pascal_eq hm' hm (hpascal'.trans hpascal.symm)]
  rw [clash?]
  split
  · next hfound =>
      obtain ⟨m, hm⟩ := Option.isSome_iff_exists.mp hfound
      obtain ⟨hmem, hidentifier⟩ := h.find?_eq_some_iff.mp hm
      have hsame := h.ofIdentifier_identifier hmem
      rw [hidentifier, Naming.identifier_of_ofIdentifier hn, hn] at hsame
      have hiff := hone hmem (by rw [Except.ok.inj hsame])
      rwa [clashOf, if_pos hidentifier] at hiff
  · next hfresh =>
      split
      · next first hfind =>
          have hmem := List.mem_of_find?_eq_some hfind
          have hne : first.identifier ≠ n.identifier := by
            intro hidentifier
            rw [h.find?_eq_some_iff.mpr ⟨hmem, hidentifier⟩] at hfresh
            exact hfresh rfl
          have hiff := hone hmem (by simpa using List.find?_some hfind)
          rwa [clashOf, if_neg hne] at hiff
      · next hpascal =>
          have hnone : ∀ m ∈ table, m.pascal ≠ n.pascal := by
            simpa using hpascal
          have hcamel : List.find? (fun m => m.camel = n.camel) table = none := by
            refine List.find?_eq_none.mpr fun m hm => ?_
            rw [decide_eq_true_eq, Name.camel_eq_iff (h.ofIdentifier_identifier hm) hn]
            exact hnone m hm
          rw [hcamel]
          refine iff_of_false (by simp) ?_
          rintro ⟨m, hm, hsame, -⟩
          exact hnone m hm hsame

/-- The first of some names that cannot stand with those before it, and the error that cites it. -/
inductive FirstFault (declared : Declared) (names : List String) : Error → Prop
  | invalid {before after : List String} {name : String} (hnames : names = before ++ name :: after)
      (hbefore : Compatible before) (hname : ∀ n, Name.ofIdentifier name ≠ .ok n) :
      FirstFault declared names (.invalidName name)
  | repeated {before after : List String} {name : String}
      (hnames : names = before ++ name :: after) (hbefore : Compatible before)
      (hearlier : name ∈ before) :
      FirstFault declared names (.duplicateName declared (.repeated name))
  | sameForm {before after : List String} {first second : String} {n m : Name}
      (hnames : names = before ++ second :: after) (hbefore : Compatible before)
      (hearlier : first ∈ before) (hne : first ≠ second)
      (hfirst : Name.ofIdentifier first = .ok n) (hsecond : Name.ofIdentifier second = .ok m)
      (hpascal : n.pascal = m.pascal) :
      FirstFault declared names (.duplicateName declared (.sameForm first second m.pascal))

theorem ofNames_eq_error_iff {declared : Declared} {names : List String} {e : Error} :
    ofNames declared names = .error e ↔ FirstFault declared names e := by
  rw [ofNames, extend_eq_error_iff]
  constructor
  · rintro ⟨before, name, after, table, hnames, hbefore, hname⟩
    have hspells : table.Spells before := ofNames_eq_ok_iff.mp hbefore
    rcases hname with hinvalid | ⟨n, hn, hclash⟩
    · obtain ⟨hname, rfl⟩ := Naming.ofIdentifier_eq_error.mp hinvalid
      exact .invalid hnames hspells.compatible hname
    · obtain ⟨m, hm, hpascal, rfl⟩ := (clash?_eq_some_iff hspells hn).mp hclash
      have hearlier : m.identifier ∈ before := hspells.map_identifier ▸ List.mem_map_of_mem hm
      rw [clashOf, Naming.identifier_of_ofIdentifier hn]
      split
      · next hsame => exact .repeated hnames hspells.compatible (hsame ▸ hearlier)
      · next hne =>
          exact .sameForm hnames hspells.compatible hearlier hne
            (hspells.ofIdentifier_identifier hm) hn hpascal
  · intro hfault
    cases hfault with
    | @invalid before after name hnames hbefore hname =>
        obtain ⟨table, htable⟩ := exists_spells hbefore
        exact ⟨before, name, after, table, hnames, ofNames_eq_ok_iff.mpr htable,
          .inl (Naming.ofIdentifier_eq_error.mpr ⟨hname, rfl⟩)⟩
    | @repeated before after name hnames hbefore hearlier =>
        obtain ⟨table, htable⟩ := exists_spells hbefore
        obtain ⟨n, hn, hmem⟩ := htable.exists_ofIdentifier hearlier
        refine ⟨before, name, after, table, hnames, ofNames_eq_ok_iff.mpr htable, .inr ⟨n, hn, ?_⟩⟩
        refine (clash?_eq_some_iff htable hn).mpr ⟨n, hmem, rfl, ?_⟩
        rw [clashOf, if_pos rfl, Naming.identifier_of_ofIdentifier hn]
    | @sameForm before after first second n m hnames hbefore hearlier hne hfirst hsecond hpascal =>
        obtain ⟨table, htable⟩ := exists_spells hbefore
        have hmem := htable.mem_of_ofIdentifier hearlier hfirst
        refine ⟨before, second, after, table, hnames, ofNames_eq_ok_iff.mpr htable,
          .inr ⟨m, hsecond, ?_⟩⟩
        refine (clash?_eq_some_iff htable hsecond).mpr ⟨n, hmem, hpascal, ?_⟩
        rw [clashOf, Naming.identifier_of_ofIdentifier hfirst,
          Naming.identifier_of_ofIdentifier hsecond, if_neg hne]

end NameTable

/-- A model that would have its files in the directory of the enums. -/
def Schema.Model.TakesEnumDirectory (m : Model) : Prop :=
  ∃ n, Name.ofIdentifier m.name = .ok n ∧ n.camel = enumDirectory

namespace Schema.Datamodel

/-- A data model with names for which all files have places of their own. -/
structure Nameable (d : Datamodel) : Prop where
  spelled : ∀ name ∈ d.models.map Model.name ++ d.enums.map Enumeration.name,
    ∃ n, Name.ofIdentifier name = .ok n
  models : (d.models.map Model.name).Pairwise PascalApart
  enums : (d.enums.map Enumeration.name).Pairwise PascalApart
  directory : ∀ m ∈ d.models, ¬ m.TakesEnumDirectory

/-- What is wrong with the names of a data model, and the error that says so. -/
inductive NamingFault (d : Datamodel) : Error → Prop
  | models {e : Error} (h : NameTable.FirstFault .model (d.models.map Model.name) e) :
      NamingFault d e
  | enums {e : Error} (hmodels : Compatible (d.models.map Model.name))
      (h : NameTable.FirstFault .enumeration (d.enums.map Enumeration.name) e) : NamingFault d e
  | directory {before after : List Model} {m : Model}
      (hmodels : Compatible (d.models.map Model.name))
      (henums : Compatible (d.enums.map Enumeration.name))
      (hsplit : d.models = before ++ m :: after) (htakes : m.TakesEnumDirectory)
      (hothers : ∀ other ∈ before ++ after, ¬ other.TakesEnumDirectory) :
      NamingFault d (.duplicateName .directory (.sameForm m.name enumDirectory enumDirectory))

theorem nameable_iff {d : Datamodel} :
    d.Nameable ↔ Compatible (d.models.map Model.name) ∧ Compatible (d.enums.map Enumeration.name) ∧
      ∀ m ∈ d.models, ¬ m.TakesEnumDirectory := by
  constructor
  · rintro ⟨hspelled, hmodels, henums, hdirectory⟩
    exact ⟨⟨fun name hname => hspelled name (List.mem_append_left _ hname), hmodels⟩,
      ⟨fun name hname => hspelled name (List.mem_append_right _ hname), henums⟩, hdirectory⟩
  · rintro ⟨hmodels, henums, hdirectory⟩
    refine ⟨fun name hname => ?_, hmodels.pascal, henums.pascal, hdirectory⟩
    exact (List.mem_append.mp hname).elim (hmodels.spelled name) (henums.spelled name)

end Schema.Datamodel

namespace NameTable.Spells

variable {models : List Model} {table : NameTable}

theorem takesEnumDirectory_iff (h : table.Spells (models.map Model.name)) {m : Model}
    (hm : m ∈ models) :
    m.TakesEnumDirectory ↔ ∃ n ∈ table, n.identifier = m.name ∧ n.camel = enumDirectory := by
  constructor
  · rintro ⟨n, hn, hcamel⟩
    exact ⟨n, h.mem_of_ofIdentifier (List.mem_map_of_mem hm) hn,
      Naming.identifier_of_ofIdentifier hn, hcamel⟩
  · rintro ⟨n, hn, hidentifier, hcamel⟩
    exact ⟨n, hidentifier ▸ h.ofIdentifier_identifier hn, hcamel⟩

/-- No more than one entry stands for the directory of the enums. -/
theorem eq_of_camel_eq_enumDirectory {names : List String} (h : table.Spells names) {n m : Name}
    (hn : n ∈ table) (hm : m ∈ table) (hncamel : n.camel = enumDirectory)
    (hmcamel : m.camel = enumDirectory) : n = m := by
  by_contra hne
  exact (h.apart_of_ne hn hm hne).camel (hncamel.trans hmcamel.symm)

/-- The entry for the directory of the enums is found whatever the order of the search. -/
theorem find?_camel_of_perm {names : List String} (h : table.Spells names) {visited : NameTable}
    (hvisited : visited.Perm table) :
    List.find? (fun n => n.camel = enumDirectory) visited =
      List.find? (fun n => n.camel = enumDirectory) table := by
  refine (List.find?_eq_find?_of_perm hvisited.symm ?_).symm
  rintro n ⟨hn, hncamel⟩ m ⟨hm, hmcamel⟩
  exact h.eq_of_camel_eq_enumDirectory hn hm (by simpa using hncamel) (by simpa using hmcamel)

/-- The entry for the directory of the enums is the entry of a model. -/
theorem exists_find?_camel_iff (h : table.Spells (models.map Model.name)) {identifier : String} :
    (∃ n, List.find? (fun n => n.camel = enumDirectory) table = some n ∧
        n.identifier = identifier) ↔
      ∃ m ∈ models, m.name = identifier ∧ m.TakesEnumDirectory := by
  constructor
  · rintro ⟨n, hfind, rfl⟩
    have hn := List.mem_of_find?_eq_some hfind
    have hcamel : n.camel = enumDirectory := by simpa using List.find?_some hfind
    have hidentifier : n.identifier ∈ models.map Model.name :=
      h.map_identifier ▸ List.mem_map_of_mem hn
    obtain ⟨m, hm, hname⟩ := List.mem_map.mp hidentifier
    exact ⟨m, hm, hname, (h.takesEnumDirectory_iff hm).mpr ⟨n, hn, hname.symm, hcamel⟩⟩
  · rintro ⟨m, hm, rfl, htakes⟩
    obtain ⟨n, hn, hname, hcamel⟩ := (h.takesEnumDirectory_iff hm).mp htakes
    cases hfind : List.find? (fun n => n.camel = enumDirectory) table with
    | none =>
        have hnone := List.find?_eq_none.mp hfind n hn
        simp [hcamel] at hnone
    | some n' =>
        have hcamel' : n'.camel = enumDirectory := by simpa using List.find?_some hfind
        have hsame := h.eq_of_camel_eq_enumDirectory (List.mem_of_find?_eq_some hfind) hn hcamel'
          hcamel
        exact ⟨n', rfl, hsame ▸ hname⟩

end NameTable.Spells

/-- A model in the directory of the enums is the only one there. -/
theorem Schema.Model.TakesEnumDirectory.alone {before after : List Model} {m : Model}
    (hm : m.TakesEnumDirectory)
    (h : ((before ++ m :: after).map Model.name).Pairwise PascalApart) :
    ∀ other ∈ before ++ after, ¬ other.TakesEnumDirectory := by
  have hsymm : ∀ {x y : String}, PascalApart x y → PascalApart y x :=
    fun hapart n k hn hk heq => hapart k n hk hn heq.symm
  rw [List.pairwise_map, List.pairwise_middle hsymm, List.pairwise_cons] at h
  rintro other hother ⟨k, hk, hkcamel⟩
  obtain ⟨n, hn, hncamel⟩ := hm
  exact h.1 other hother n k hn hk ((Name.camel_eq_iff hn hk).mp (hncamel.trans hkcamel.symm))

namespace Context

/-- The context of a data model, where a model in the directory of the enums is looked for in
the order in which the spellings of the models are visited. -/
def ofDatamodelBy (visit : NameTable → NameTable) (d : Datamodel) (config : Config) :
    Except Error Context := do
  let modelNames ← NameTable.ofNames .model (d.models.map Model.name)
  let enumNames ← NameTable.ofNames .enumeration (d.enums.map Enumeration.name)
  match List.find? (fun n => n.camel = enumDirectory) (visit modelNames) with
  | some n =>
    .error (.duplicateName .directory (.sameForm n.identifier enumDirectory enumDirectory))
  | none =>
    return {
      config := config
      datamodel := d
      modelNames := modelNames
      enumNames := enumNames
      clientPaths := none }

theorem ofDatamodelBy_eq {visit : NameTable → NameTable}
    (hvisit : ∀ table, (visit table).Perm table) (d : Datamodel) (config : Config) :
    ofDatamodelBy visit d config = ofDatamodel d config := by
  rw [ofDatamodelBy, ofDatamodel]
  cases hmodels : NameTable.ofNames .model (d.models.map Model.name) with
  | error e => rfl
  | ok modelNames =>
      have hspells := NameTable.ofNames_eq_ok_iff.mp hmodels
      have hfind := hspells.find?_camel_of_perm (hvisit modelNames)
      dsimp only [bind, Except.bind]
      exact hfind ▸ rfl

variable {d : Datamodel} {config : Config}

theorem exists_ofDatamodel_iff_nameable : (∃ c, ofDatamodel d config = .ok c) ↔ d.Nameable := by
  rw [exists_ofDatamodel_iff, Datamodel.nameable_iff]
  constructor
  · rintro ⟨modelNames, enumNames, hmodelNames, henumNames, hfree⟩
    refine ⟨hmodelNames.compatible, henumNames.compatible, fun m hm htakes => ?_⟩
    obtain ⟨n, hn, -, hcamel⟩ := (hmodelNames.takesEnumDirectory_iff hm).mp htakes
    exact hfree n hn hcamel
  · rintro ⟨hmodels, henums, hdirectory⟩
    obtain ⟨modelNames, hmodelNames⟩ := NameTable.exists_spells hmodels
    obtain ⟨enumNames, henumNames⟩ := NameTable.exists_spells henums
    refine ⟨modelNames, enumNames, hmodelNames, henumNames, fun n hn hcamel => ?_⟩
    have hidentifier : n.identifier ∈ d.models.map Model.name :=
      hmodelNames.map_identifier ▸ List.mem_map_of_mem hn
    obtain ⟨m, hm, hname⟩ := List.mem_map.mp hidentifier
    exact hdirectory m hm ((hmodelNames.takesEnumDirectory_iff hm).mpr ⟨n, hn, hname.symm, hcamel⟩)

theorem ofDatamodel_eq_error_iff {e : Error} :
    ofDatamodel d config = .error e ↔ d.NamingFault e := by
  rw [ofDatamodel, bind_eq_error]
  constructor
  · rintro (hmodels | ⟨modelNames, hmodels, h⟩)
    · exact .models (NameTable.ofNames_eq_error_iff.mp hmodels)
    have hmodelNames := NameTable.ofNames_eq_ok_iff.mp hmodels
    rw [bind_eq_error] at h
    rcases h with henums | ⟨enumNames, henums, h⟩
    · exact .enums hmodelNames.compatible (NameTable.ofNames_eq_error_iff.mp henums)
    have henumNames := NameTable.ofNames_eq_ok_iff.mp henums
    split at h
    · next n hfind =>
        obtain ⟨m, hm, hname, htakes⟩ := hmodelNames.exists_find?_camel_iff.mp ⟨n, hfind, rfl⟩
        obtain ⟨before, after, hsplit⟩ := List.append_of_mem hm
        have halone := htakes.alone (hsplit ▸ hmodelNames.compatible.pascal)
        rw [← Except.error.inj h, ← hname]
        exact .directory hmodelNames.compatible henumNames.compatible hsplit htakes halone
    · cases h
  · intro hfault
    cases hfault with
    | models h => exact .inl (NameTable.ofNames_eq_error_iff.mpr h)
    | enums hmodels h =>
        obtain ⟨modelNames, hmodelNames⟩ := NameTable.exists_spells hmodels
        refine .inr ⟨modelNames, NameTable.ofNames_eq_ok_iff.mpr hmodelNames, ?_⟩
        exact bind_eq_error.mpr (.inl (NameTable.ofNames_eq_error_iff.mpr h))
    | @directory before after m hmodels henums hsplit htakes hothers =>
        obtain ⟨modelNames, hmodelNames⟩ := NameTable.exists_spells hmodels
        obtain ⟨enumNames, henumNames⟩ := NameTable.exists_spells henums
        have hm : m ∈ d.models := hsplit ▸ List.mem_append_right _ List.mem_cons_self
        obtain ⟨n, hfind, hname⟩ := hmodelNames.exists_find?_camel_iff.mpr ⟨m, hm, rfl, htakes⟩
        refine .inr ⟨modelNames, NameTable.ofNames_eq_ok_iff.mpr hmodelNames, ?_⟩
        refine bind_eq_error.mpr (.inr ⟨enumNames, NameTable.ofNames_eq_ok_iff.mpr henumNames, ?_⟩)
        rw [hfind, ← hname]

/-- A data model has a context exactly if its names can stand together, and is otherwise answered
with what is wrong with them. The order in which the spellings are visited makes no difference. -/
theorem ofDatamodelBy_outcome (d : Datamodel) (config : Config) {visit : NameTable → NameTable}
    (hvisit : ∀ table, (visit table).Perm table) :
    ofDatamodelBy visit d config = ofDatamodel d config ∧
      ((∃ c, ofDatamodelBy visit d config = .ok c) ↔ d.Nameable) ∧
      ∀ e, ofDatamodelBy visit d config = .error e ↔ d.NamingFault e := by
  rw [ofDatamodelBy_eq hvisit]
  exact ⟨rfl, exists_ofDatamodel_iff_nameable, fun e => ofDatamodel_eq_error_iff⟩

/-- Two enums with one Pascal form, and behind them a name that has no spelling. -/
def statusDatamodel : Datamodel where
  enums := [⟨"order_status", ["OPEN"], none, none⟩, ⟨"User", ["A"], none, none⟩,
    ⟨"OrderStatus", ["OPEN"], none, none⟩, ⟨"__", ["A"], none, none⟩]
  models := [.plain "Enums" [], .plain "user" []]

theorem ofDatamodelBy_outcome_statusDatamodel :
    (∀ table : NameTable, table.reverse.Perm table) ∧
      ofDatamodelBy List.reverse statusDatamodel .standard = .error (.duplicateName .enumeration
        (.sameForm "order_status" "OrderStatus" "OrderStatus")) ∧
      statusDatamodel.NamingFault (.duplicateName .enumeration
        (.sameForm "order_status" "OrderStatus" "OrderStatus")) ∧ ¬ statusDatamodel.Nameable := by
  have hvisit : ∀ table : NameTable, table.reverse.Perm table := fun table => table.reverse_perm
  obtain ⟨-, haccepted, hrefused⟩ := ofDatamodelBy_outcome statusDatamodel .standard hvisit
  have herror : ofDatamodelBy List.reverse statusDatamodel .standard = .error (.duplicateName
      .enumeration (.sameForm "order_status" "OrderStatus" "OrderStatus")) := by rfl
  refine ⟨hvisit, herror, (hrefused _).mp herror, fun hnameable => ?_⟩
  obtain ⟨c, hc⟩ := haccepted.mpr hnameable
  rw [herror] at hc
  cases hc

end Context

end Scaffold
