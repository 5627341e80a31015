import Scaffold.Proofs.Contents

/-!
# Names bound in generated files

A file binds the names it imports and the names it declares. If one of them is bound
twice the file does not compile, and whether that happens is a question about enums
only. Every other name says by its last three letters what it names: `Base` a
class of records, `Key` the type of a key, `Dto` an input, and so on, and the names
taken from packages have none of these endings. So the name alone determines the
module it is imported from, and the names a file declares are none of those it
imports.

The name of an enum is its Pascal form, which may be any of the others. Names of
enums and of models are told apart among themselves only, since nothing of theirs
shares a path; an enum `UserBase` beside a model `User` is accepted, and the two meet
in the file of the entity. `nodup_bound_iff` says that this is the only way.
-/

namespace Scaffold

open Document (Environment Options)
open Naming (Name)
open Schema
open Text (append_ne_append ending ending_append ne_of_ending_ne)
open TypeScript

namespace NamedModel

variable (m : NamedModel)

theorem ending_entityClass : ending 3 m.entityClass = ['e', 's', 'a'] := by
  rw [entityClass, ending_append (by decide)]
  decide

theorem ending_relationsClass : ending 3 m.relationsClass = ['s', 'n', 'o'] := by
  rw [relationsClass, ending_append (by decide)]
  decide

theorem ending_withRelationsType : ending 3 m.withRelationsType = ['s', 'n', 'o'] := by
  rw [withRelationsType, ending_append (by decide)]
  decide

theorem ending_keyType : ending 3 m.keyType = ['y', 'e', 'K'] := by
  rw [keyType, ending_append (by decide)]
  decide

theorem ending_createDtoClass : ending 3 m.createDtoClass = ['o', 't', 'D'] := by
  rw [createDtoClass, ending_append (by decide)]
  decide

theorem ending_serviceClass : ending 3 m.serviceClass = ['e', 'c', 'i'] := by
  rw [serviceClass, ending_append (by decide)]
  decide

end NamedModel

namespace Artifact

theorem ending_entityClassOf (n : Name) : ending 3 (entityClassOf n) = ['e', 's', 'a'] := by
  rw [entityClassOf, ending_append (by decide)]
  decide

/-- The endings of the names that files of models declare or take from each other. -/
def generatedEndings : List (List Char) :=
  [['e', 's', 'a'], ['s', 'n', 'o'], ['y', 'e', 'K'], ['o', 't', 'D'], ['e', 'c', 'i']]

theorem ending_libraryImports :
    ∀ i ∈ libraryImports, ending 3 i.name ∉ generatedEndings := by
  decide +kernel

theorem ending_clientNamespace : ending 3 clientNamespace ∉ generatedEndings := by
  decide

theorem ending_client : ending 3 "PrismaClient" ∉ generatedEndings := by
  decide

variable {c : Context} {m : NamedModel}

/-- The module from which the files of a model take a name that is not an enum. -/
def moduleOf (c : Context) (m : NamedModel) (role : Role) (name : String) : String :=
  if ending 3 name ∈ generatedEndings then
    if name = m.createDtoClass then "./dtos/" ++ m.dtoModule
    else if role = .service then "./" ++ m.entityModule
    else
      match List.find? (fun n => entityClassOf n = name) c.modelNames with
      | some n => "../" ++ n.camel ++ "/" ++ name
      | none => ""
  else
    match libraryImports.find? fun i => i.name = name with
    | some i => i.module
    | none =>
      match c.clientImportPath with
      | .ok path => path
      | .error _ => ""

theorem find?_libraryImports :
    ∀ i ∈ libraryImports, (libraryImports.find? fun j => j.name = i.name) = some i := by
  decide +kernel

theorem find?_entityClassOf (h : c.WellNamed) {n : Name} (hn : n ∈ c.modelNames) :
    (List.find? (fun n' => entityClassOf n' = entityClassOf n) c.modelNames) = some n := by
  cases hfind : List.find? (fun n' => entityClassOf n' = entityClassOf n) c.modelNames with
  | none =>
      have hdiffers := List.find?_eq_none.mp hfind n hn
      simp at hdiffers
  | some n' =>
      have hclass : entityClassOf n' = entityClassOf n := by simpa using List.find?_some hfind
      have hpascal : n'.pascal = n.pascal := (String.append_left_inj _).mp hclass
      rw [h.models.eq_of_pascal_eq (List.mem_of_find?_eq_some hfind) hn hpascal]

/-- Unless it is an enum, the name of an import says what module it is from. -/
theorem enum_or_module_eq (h : c.WellNamed) {role : Role} {i : Import} (hi : Origin c m role i) :
    (∃ n ∈ c.enumNames, IsEnumImport role n i) ∨ i.module = moduleOf c m role i.name := by
  cases hi with
  | library hi =>
      refine .inr ?_
      rw [moduleOf, if_neg (ending_libraryImports i hi), find?_libraryImports i hi]
  | clientTypes hpath =>
      refine .inr ?_
      have hfind : (libraryImports.find? fun i => i.name = clientNamespace) = none := by decide
      rw [moduleOf, if_neg ending_clientNamespace, hfind, hpath]
  | client hpath =>
      refine .inr ?_
      have hfind : (libraryImports.find? fun i => i.name = "PrismaClient") = none := by decide
      rw [moduleOf, if_neg ending_client, hfind, hpath]
  | @entityEnum n hn => exact .inl ⟨n, hn, .inl ⟨rfl, rfl⟩⟩
  | @dtoEnum n hn => exact .inl ⟨n, hn, .inr ⟨rfl, rfl⟩⟩
  | @otherEntity n hn hne =>
      refine .inr ?_
      have hmem : ending 3 (entityClassOf n) ∈ generatedEndings := by
        rw [ending_entityClassOf]
        decide
      have hdto : entityClassOf n ≠ m.createDtoClass :=
        ne_of_ending_ne 3 (by rw [ending_entityClassOf, m.ending_createDtoClass]; decide)
      rw [moduleOf, if_pos hmem, if_neg hdto, if_neg (by decide), find?_entityClassOf h hn]
  | ownEntity =>
      refine .inr ?_
      have hmem : ending 3 m.entityClass ∈ generatedEndings := by
        rw [m.ending_entityClass]
        decide
      have hdto : m.entityClass ≠ m.createDtoClass :=
        ne_of_ending_ne 3 (by rw [m.ending_entityClass, m.ending_createDtoClass]; decide)
      rw [moduleOf, if_pos hmem, if_neg hdto, if_pos rfl]
  | ownDto =>
      refine .inr ?_
      have hmem : ending 3 m.createDtoClass ∈ generatedEndings := by
        rw [m.ending_createDtoClass]
        decide
      rw [moduleOf, if_pos hmem, if_pos rfl]
  | ownKey hkey =>
      refine .inr ?_
      have hmem : ending 3 m.keyType ∈ generatedEndings := by
        rw [m.ending_keyType]
        decide
      have hdto : m.keyType ≠ m.createDtoClass :=
        ne_of_ending_ne 3 (by rw [m.ending_keyType, m.ending_createDtoClass]; decide)
      rw [moduleOf, if_pos hmem, if_neg hdto, if_pos rfl]

/-- Two imports of one name are from one module, unless one of them is an enum. -/
theorem enum_or_module_eq_module (h : c.WellNamed) {role : Role} {i j : Import}
    (hi : Origin c m role i) (hj : Origin c m role j) (hname : i.name = j.name) :
    (∃ n ∈ c.enumNames, IsEnumImport role n i ∨ IsEnumImport role n j) ∨ i.module = j.module := by
  rcases enum_or_module_eq h hi with ⟨n, hn, henum⟩ | hi
  · exact .inl ⟨n, hn, .inl henum⟩
  · rcases enum_or_module_eq h hj with ⟨n, hn, henum⟩ | hj
    · exact .inl ⟨n, hn, .inr henum⟩
    · exact .inr (by rw [hi, hj, hname])

theorem mem_declaredNames_entity {e : Entity} (he : Entity.ofModel c m = .ok e) {name : String}
    (hname : name ∈ (Body.entity e).declaredNames) :
    name = m.keyType ∨ name = m.entityClass ∨ name = m.relationsClass ∨
      name = m.withRelationsType := by
  obtain ⟨key, hkey, -⟩ := entity_ofModel_eq_ok.mp he
  rw [declaredNames_entity he hkey] at hname
  rcases List.mem_append.mp hname with hname | hname
  · obtain ⟨k, -, rfl⟩ := Option.map_eq_some_iff.mp (Option.mem_toList.mp hname)
    exact .inl rfl
  · rcases List.mem_cons.mp hname with rfl | hname
    · exact .inr (.inl rfl)
    · split at hname
      · exact .inr (.inr (by simpa using hname))
      · cases hname

theorem nodup_declaredNames {a : Artifact} (ha : OfContext c a) : a.body.declaredNames.Nodup := by
  cases ha with
  | enumeration hmem => exact List.nodup_singleton _
  | modelIndex hm hindex => exact List.nodup_nil
  | enumIndex hindex hsome => exact List.nodup_nil
  | createDto hm hd => exact List.nodup_singleton _
  | service hm hs => exact List.nodup_singleton _
  | @entity m e hm he =>
      obtain ⟨key, hkey, -⟩ := entity_ofModel_eq_ok.mp he
      rw [declaredNames_entity he hkey]
      -- All names are the Pascal form with something behind it.
      have hall : [m.keyType, m.entityClass, m.relationsClass, m.withRelationsType].Nodup := by
        have hsuffixes : ["Key", "Base", "BaseRelations", "BaseWithRelations"].Nodup := by decide
        exact hsuffixes.map fun s t hst => (String.append_right_inj _).mp hst
      refine List.Nodup.sublist ?_ hall
      have hkeyType : (key.map fun _ => m.keyType).toList.Sublist [m.keyType] := by
        cases key with
        | none => exact List.nil_sublist _
        | some k => exact List.Sublist.refl _
      refine hkeyType.append (List.Sublist.cons_cons _ ?_)
      split
      · exact List.Sublist.refl _
      · exact List.nil_sublist _

/-- Declared names end like no name of a package or of the client. -/
theorem ending_declaredNames {a : Artifact} (ha : OfContext c a) (hrole : a.body.role ≠ .enumeration)
    {name : String} (hname : name ∈ a.body.declaredNames) : ending 3 name ∈ generatedEndings := by
  cases ha with
  | enumeration hmem => exact absurd rfl hrole
  | modelIndex hm hindex => cases hname
  | enumIndex hindex hsome => cases hname
  | @entity m e hm he =>
      rcases mem_declaredNames_entity he hname with rfl | rfl | rfl | rfl
      · rw [m.ending_keyType]
        decide
      · rw [m.ending_entityClass]
        decide
      · rw [m.ending_relationsClass]
        decide
      · rw [m.ending_withRelationsType]
        decide
  | @createDto m d hm hd =>
      have hmem : name ∈ [m.createDtoClass] := declaredNames_createDto hd ▸ hname
      rw [List.mem_singleton.mp hmem, m.ending_createDtoClass]
      decide
  | @service m s hm hs =>
      have hmem : name ∈ [m.serviceClass] := declaredNames_service hs ▸ hname
      rw [List.mem_singleton.mp hmem, m.ending_serviceClass]
      decide

/-- The class of another model is not called like anything a model declares. -/
theorem entityClassOf_not_declared (h : c.WellNamed) {e : Entity} (hm : m ∈ c.namedModels)
    (he : Entity.ofModel c m = .ok e) {n : Name} (hn : n ∈ c.modelNames) (hne : n ≠ m.names) :
    entityClassOf n ∉ (Body.entity e).declaredNames := by
  intro hname
  rcases mem_declaredNames_entity he hname with heq | heq | heq | heq
  · exact ne_of_ending_ne 3 (by rw [ending_entityClassOf, m.ending_keyType]; decide) heq
  · have hpascal : n.pascal = m.names.pascal := (String.append_left_inj _).mp heq
    exact hne (h.models.eq_of_pascal_eq hn (h.names_mem hm) hpascal)
  · exact ne_of_ending_ne 3 (by rw [ending_entityClassOf, m.ending_relationsClass]; decide) heq
  · exact ne_of_ending_ne 3 (by rw [ending_entityClassOf, m.ending_withRelationsType]; decide) heq

theorem service_not_declared {s : Service} (hs : Service.ofModel c m = .ok s) {name : String}
    (hending : ending 3 name ≠ ['e', 'c', 'i']) : name ∉ (Body.service s).declaredNames := by
  intro hname
  rw [declaredNames_service hs] at hname
  rw [List.mem_singleton.mp hname, m.ending_serviceClass] at hending
  exact hending rfl

/-- Unless it is an enum, an import is not called like a declaration of its file. -/
theorem enum_or_not_declared (h : c.WellNamed) {a : Artifact} (ha : OfContext c a) {i : Import}
    (hi : i ∈ a.body.imports.entries) :
    (∃ n ∈ c.enumNames, IsEnumImport a.body.role n i) ∨ i.name ∉ a.body.declaredNames := by
  have hother : a.body.role ≠ .enumeration → ending 3 i.name ∉ generatedEndings →
      i.name ∉ a.body.declaredNames :=
    fun hrole hending hname => hending (ending_declaredNames ha hrole hname)
  cases ha with
  | enumeration hmem => cases hi
  | modelIndex hm hindex => cases hi
  | enumIndex hindex hsome => cases hi
  | @entity m e hm he =>
      have hrole : Role.entity ≠ .enumeration := by decide
      cases origin_entity h he i hi with
      | library hi => exact .inr (hother hrole (ending_libraryImports i hi))
      | clientTypes hpath => exact .inr (hother hrole ending_clientNamespace)
      | @entityEnum n hn => exact .inl ⟨n, hn, .inl ⟨rfl, rfl⟩⟩
      | otherEntity hn hne => exact .inr (entityClassOf_not_declared h hm he hn hne)
  | @createDto m d hm hd =>
      have hrole : Role.createDto ≠ .enumeration := by decide
      cases origin_createDto h hd i hi with
      | library hi => exact .inr (hother hrole (ending_libraryImports i hi))
      | clientTypes hpath => exact .inr (hother hrole ending_clientNamespace)
      | @dtoEnum n hn => exact .inl ⟨n, hn, .inr ⟨rfl, rfl⟩⟩
  | @service m s hm hs =>
      have hrole : Role.service ≠ .enumeration := by decide
      cases origin_service hs i hi with
      | library hi => exact .inr (hother hrole (ending_libraryImports i hi))
      | clientTypes hpath => exact .inr (hother hrole ending_clientNamespace)
      | client hpath => exact .inr (hother hrole ending_client)
      | ownEntity => exact .inr (service_not_declared hs (by rw [m.ending_entityClass]; decide))
      | ownDto => exact .inr (service_not_declared hs (by rw [m.ending_createDtoClass]; decide))
      | ownKey hkey => exact .inr (service_not_declared hs (by rw [m.ending_keyType]; decide))

/-! ## Names bound

The names that a file declares do not repeat, nor do those it takes from one module. A name
bound twice is imported and declared, or imported from two modules, and by the endings of
all names besides one of the two is an enum. -/

/-- The names that a file binds: first line by line those it imports, then those it
declares. -/
def Body.boundNames (b : Body) : List String :=
  b.imports.boundNames ++ b.declaredNames

/-- A file binds a name twice only if it imports an enum of that name, and then only
if it declares the name as well or imports it from another module too. -/
theorem nodup_boundNames_body_iff (h : c.WellNamed) {a : Artifact} (ha : OfContext c a) :
    a.body.boundNames.Nodup ↔
      ∀ n ∈ c.enumNames, ∀ i ∈ a.body.imports.entries, IsEnumImport a.body.role n i →
        n.pascal ∉ a.body.declaredNames ∧
          ∀ j ∈ a.body.imports.entries, j.name = n.pascal → j.module = i.module := by
  rw [Body.boundNames, List.nodup_append, Imports.nodup_boundNames_iff]
  constructor
  · rintro ⟨hmodule, -, hapart⟩ n hn i hi henum
    refine ⟨fun hdeclared => ?_, fun j hj hname => ?_⟩
    · have hbound : n.pascal ∈ a.body.imports.boundNames :=
        Imports.mem_boundNames.mpr ⟨i, hi, name_of_isEnumImport henum⟩
      exact hapart n.pascal hbound n.pascal hdeclared rfl
    · exact hmodule j hj i hi (hname.trans (name_of_isEnumImport henum).symm)
  · intro hall
    refine ⟨fun i hi j hj hname => ?_, nodup_declaredNames ha, ?_⟩
    · obtain ⟨m, horigin⟩ : ∃ m, Origin c m a.body.role i ∧ Origin c m a.body.role j := by
        cases ha with
        | enumeration hmem => cases hi
        | modelIndex hm hindex => cases hi
        | enumIndex hindex hsome => cases hi
        | @entity m e hm he => exact ⟨m, origin_entity h he i hi, origin_entity h he j hj⟩
        | @createDto m d hm hd => exact ⟨m, origin_createDto h hd i hi, origin_createDto h hd j hj⟩
        | @service m s hm hs => exact ⟨m, origin_service hs i hi, origin_service hs j hj⟩
      rcases enum_or_module_eq_module h horigin.1 horigin.2 hname with ⟨n, hn, henum | henum⟩ | heq
      · exact ((hall n hn i hi henum).2 j hj (hname.symm.trans (name_of_isEnumImport henum))).symm
      · exact (hall n hn j hj henum).2 i hi (hname.trans (name_of_isEnumImport henum))
      · exact heq
    · rintro _ hbound name hdeclared rfl
      obtain ⟨i, hi, rfl⟩ := Imports.mem_boundNames.mp hbound
      rcases enum_or_not_declared h ha hi with ⟨n, hn, henum⟩ | hfresh
      · rw [name_of_isEnumImport henum] at hdeclared
        exact (hall n hn i hi henum).1 hdeclared
      · exact hfresh hdeclared

/-- The names that files of models bind apart from those of enums. -/
def reservedNames (c : Context) : List String :=
  libraryImports.map Import.name ++ [clientNamespace] ++
    c.modelNames.flatMap fun n =>
      [n.pascal ++ "Base", n.pascal ++ "BaseRelations", n.pascal ++ "BaseWithRelations",
        n.pascal ++ "Key", "Create" ++ n.pascal ++ "Dto"]

theorem mem_reservedNames_of_modelNames {n : Name} (hn : n ∈ c.modelNames) {name : String}
    (hname : name ∈ [n.pascal ++ "Base", n.pascal ++ "BaseRelations",
      n.pascal ++ "BaseWithRelations", n.pascal ++ "Key", "Create" ++ n.pascal ++ "Dto"]) :
    name ∈ reservedNames c :=
  List.mem_append_right _ (List.mem_flatMap.mpr ⟨n, hn, hname⟩)

/-- What a file declares or imports under the name of an enum is that enum, unless the
name is reserved. -/
theorem enum_of_not_reserved (h : c.WellNamed) {a : Artifact} (ha : OfContext c a) {n : Name}
    (hn : n ∈ c.enumNames) (hfree : n.pascal ∉ reservedNames c) {i : Import}
    (henum : IsEnumImport a.body.role n i) :
    n.pascal ∉ a.body.declaredNames ∧
      ∀ j ∈ a.body.imports.entries, j.name = n.pascal → j.module = i.module := by
  have hlibrary : ∀ j ∈ libraryImports, j.name ≠ n.pascal := by
    rintro j hj heq
    refine hfree (List.mem_append_left _ (List.mem_append_left _ ?_))
    exact heq ▸ List.mem_map_of_mem hj
  have hclient : clientNamespace ≠ n.pascal := by
    intro heq
    refine hfree (List.mem_append_left _ (List.mem_append_right _ ?_))
    exact List.mem_singleton.mpr heq.symm
  rcases exists_of_isEnumImport ha henum with ⟨m, hm, e, he, rfl, rfl⟩ | ⟨m, hm, d, hd, rfl, rfl⟩
  · refine ⟨fun hdeclared => hfree ?_, fun j hj hname => ?_⟩
    · refine mem_reservedNames_of_modelNames (h.names_mem hm) ?_
      rcases mem_declaredNames_entity he hdeclared with heq | heq | heq | heq
      · rw [heq]; simp [NamedModel.keyType]
      · rw [heq]; simp [NamedModel.entityClass]
      · rw [heq]; simp [NamedModel.relationsClass]
      · rw [heq]; simp [NamedModel.withRelationsType]
    · cases origin_entity h he j hj with
      | library hj => exact absurd hname (hlibrary j hj)
      | clientTypes hpath => exact absurd hname hclient
      | @entityEnum n' hn' => rw [h.enums.eq_of_pascal_eq hn' hn hname]
      | @otherEntity n' hn' hne =>
          have hreserved : n.pascal ∈ reservedNames c :=
            mem_reservedNames_of_modelNames hn' (by rw [← hname]; simp [entityClassOf])
          exact absurd hreserved hfree
  · refine ⟨fun hdeclared => hfree ?_, fun j hj hname => ?_⟩
    · refine mem_reservedNames_of_modelNames (h.names_mem hm) ?_
      have hdto : n.pascal ∈ [m.createDtoClass] := declaredNames_createDto hd ▸ hdeclared
      rw [List.mem_singleton.mp hdto]
      simp [NamedModel.createDtoClass]
    · cases origin_createDto h hd j hj with
      | library hj => exact absurd hname (hlibrary j hj)
      | clientTypes hpath => exact absurd hname hclient
      | @dtoEnum n' hn' => rw [h.enums.eq_of_pascal_eq hn' hn hname]

end Artifact

/-- An enum called like the class of records of a model that has a field of it. -/
def clashingDatamodel : Datamodel where
  enums := [⟨"UserBase", ["A", "B"], none, none⟩]
  models := [
    .plain "User" [
      (Field.plain "id" (.scalar .int)).asId,
      Field.plain "kind" (.enumeration "UserBase")]]

/-- A run may well bind a name twice: the class and the enum of `clashingDatamodel` meet
in the file of the entity. -/
theorem exists_bound_twice_clashingDatamodel :
    ∃ c tree out,
      generate (.ofDatamodel clashingDatamodel) .standard (fun _ => none) ⟨"/"⟩ = .ok out ∧
        Generates (.ofDatamodel clashingDatamodel) .standard (fun _ => none) ⟨"/"⟩ c tree out ∧
        ∃ a ∈ tree, a.path = ⟨"user/UserBase.ts"⟩ ∧ ¬ a.body.boundNames.Nodup := by
  have hcheck : ((Context.ofOptions (.ofDatamodel clashingDatamodel) .standard (fun _ => none)
      ⟨"/"⟩).bind fun c => (Artifact.project c).map fun tree => tree.any fun a =>
        decide (a.path = ⟨"user/UserBase.ts"⟩ ∧ ¬ a.body.boundNames.Nodup)).toOption =
      some true := by
    decide +kernel
  obtain ⟨out, hout⟩ : ∃ out,
      generate (.ofDatamodel clashingDatamodel) .standard (fun _ => none) ⟨"/"⟩ = .ok out :=
    exists_ok_of_isOk (by decide +kernel)
  obtain ⟨c, tree, hrun⟩ := exists_generates hout
  rw [hrun.context] at hcheck
  simp only [Except.bind, hrun.project, Except.map, Except.toOption, Option.some.injEq,
    List.any_eq_true, decide_eq_true_eq] at hcheck
  exact ⟨c, tree, out, hout, hrun, hcheck⟩

/-- A run binds names twice through enums alone. As long as no enum is called like what
files of models bind besides, no file binds a name twice; in any case a file does so
exactly if it imports an enum and declares the name of it or imports that name from
another module as well; and files that import no enums never do. The names are those in
the lines of imports and behind `export` in the files of the run. -/
theorem generate_boundNames {options : Options} {config : Config} {env : Environment}
    {workingDirectory : Path} {out : Output}
    (h : generate options config env workingDirectory = .ok out) :
    ∃ c tree, Generates options config env workingDirectory c tree out ∧
      (∀ a ∈ tree, ∃ f, out.HandsOver a f ∧ f.WritesImports a.body.imports ∧
        ∀ d ∈ a.body.declarations, f.Contains d.header) ∧
      ((∀ n ∈ c.enumNames, n.pascal ∉ Artifact.reservedNames c) →
        ∀ a ∈ tree, a.body.boundNames.Nodup) ∧
      (∀ a ∈ tree, a.body.boundNames.Nodup ↔
        ∀ n ∈ c.enumNames, ∀ i ∈ a.body.imports.entries,
          Artifact.IsEnumImport a.body.role n i →
            n.pascal ∉ a.body.declaredNames ∧
              ∀ j ∈ a.body.imports.entries, j.name = n.pascal → j.module = i.module) ∧
      ∀ a ∈ tree, a.body.role ≠ .entity → a.body.role ≠ .createDto →
        a.body.boundNames.Nodup := by
  obtain ⟨c, tree, hrun⟩ := exists_generates h
  have hiff := fun a ha =>
    Artifact.nodup_boundNames_body_iff hrun.wellNamed ((hrun.mem_tree_iff (a := a)).mp ha)
  refine ⟨c, tree, hrun, fun a ha => ?_, ?_, hiff, ?_⟩
  · obtain ⟨f, hf⟩ := hrun.exists_file ha
    exact ⟨f, hf, hf.holds.writesImports, fun d hd => hf.holds.contains_header hd⟩
  · intro hfree a ha
    refine (hiff a ha).mpr fun n hn i _ henum => ?_
    exact Artifact.enum_of_not_reserved hrun.wellNamed (hrun.mem_tree_iff.mp ha) hn (hfree n hn)
      henum
  · intro a ha hentity hdto
    refine (hiff a ha).mpr fun n _ i _ henum => ?_
    rcases henum with ⟨hrole, -⟩ | ⟨hrole, -⟩
    · exact absurd hrole hentity
    · exact absurd hrole hdto

theorem generate_boundNames_smallDatamodel :
    ∃ out, generate (.ofDatamodel smallDatamodel) .standard (fun _ => none) ⟨"/work"⟩ = .ok out ∧
      ∃ c tree, Generates (.ofDatamodel smallDatamodel) .standard (fun _ => none) ⟨"/work"⟩ c tree
          out ∧
        (∀ n ∈ c.enumNames, n.pascal ∉ Artifact.reservedNames c) ∧
        ∀ a ∈ tree, a.body.boundNames.Nodup := by
  have hcheck : ((Context.ofOptions (.ofDatamodel smallDatamodel) .standard (fun _ => none)
      ⟨"/work"⟩).map fun c =>
        decide (∀ n ∈ c.enumNames, n.pascal ∉ Artifact.reservedNames c)).toOption =
      some true := by
    decide +kernel
  obtain ⟨out, hout⟩ := exists_generate_smallDatamodel
  obtain ⟨c, tree, hrun, -, hnodup, -⟩ := generate_boundNames hout
  rw [hrun.context] at hcheck
  have hfree : ∀ n ∈ c.enumNames, n.pascal ∉ Artifact.reservedNames c := by
    simpa only [Except.map, Except.toOption, Option.some.injEq, decide_eq_true_eq] using hcheck
  exact ⟨out, hout, c, tree, hrun, hfree, hnodup hfree⟩

end Scaffold
