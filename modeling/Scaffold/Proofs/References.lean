import Scaffold.Proofs.Contents

/-!
# References between generated files

A module name in a generated file is a way from the directory of that file to
another file, without the ending of the latter. To follow it is to put the way
behind the directory, to let every pair of dots take back a directory, and to add
the ending. `moduleFile` does that with components, where a name with strange
characters cannot be mistaken for two names.

Ways and places are written down in different parts of the generator, so the file
that a way leads to has to be worked out for each of them: this is the first half.
The second half goes through the imports of an arbitrary file by their origin and
through the lines of an arbitrary index.
-/

namespace Scaffold

open Document (Environment Options)
open Naming (Name)
open Scaffold.Path (IsPlainName IsStep)
open Schema
open Text (append_ne_append ending_append ne_of_ending_ne)
open TypeScript

namespace Path

theorem foldl_walk_parents (place : List Component) (names : List String) :
    (List.replicate names.length Component.parent).foldl walk
      (names.map Component.name ++ place) = place := by
  induction names with
  | nil => rfl
  | cons name names ih => exact ih

/-- Climbing out of some directories leaves those above them. -/
theorem normal_climb (dirs climbed names : List String) :
    normal ((dirs ++ climbed).map Component.name ++
      (List.replicate climbed.length .parent ++ names.map .name)) =
      (dirs ++ names).map .name := by
  have hparents := foldl_walk_parents (dirs.map Component.name).reverse climbed.reverse
  rw [List.length_reverse, List.map_reverse] at hparents
  have hplace : ((dirs ++ climbed).map Component.name).foldl walk [] =
      (climbed.map Component.name).reverse ++ (dirs.map Component.name).reverse := by
    rw [foldl_walk_names, List.append_nil, List.map_append, List.reverse_append]
  rw [normal, List.foldl_append, List.foldl_append, hplace, hparents, foldl_walk_names]
  simp

/-- The components of the file that a module name in another file stands for. -/
def moduleFile (importer : Path) (module : String) : List Component :=
  normal (importer.components.dropLast ++ (Path.mk (module ++ ".ts")).components)

variable {importer : Path} {module file : String} {names : List String}

/-- The text of a way out of some directories. -/
def climbText (height : Nat) : String :=
  String.join (List.replicate height "../")

theorem intercalate_parents (height : Nat) (h : names ≠ []) :
    "/".intercalate (List.replicate height ".." ++ names) =
      climbText height ++ "/".intercalate names := by
  induction height with
  | zero => exact String.empty_append.symm
  | succ height ih =>
      rw [climbText] at ih ⊢
      rw [List.replicate_succ, List.cons_append, String.intercalate_cons_of_ne_nil (by simp [h]), ih,
        List.replicate_succ, String.join_cons, String.append_assoc]
      rfl

theorem moduleFile_climb (dirs climbed : List String)
    (himporter : importer.components = (dirs ++ climbed ++ [file]).map .name)
    (hmodule : module ++ ".ts" = climbText climbed.length ++ "/".intercalate names)
    (hclimbed : climbed ≠ []) (hnames : names ≠ []) (hplain : ∀ s ∈ names, IsPlainName s) :
    importer.moduleFile module = (dirs ++ names).map .name := by
  obtain ⟨dir, climbed, rfl⟩ := List.exists_cons_of_ne_nil hclimbed
  have hsteps : ∀ s ∈ List.replicate climbed.length Component.parent ++ names.map .name,
      IsStep s := by
    intro s hs
    rcases List.mem_append.mp hs with hs | hs
    · rw [List.eq_of_mem_replicate hs]
      trivial
    · obtain ⟨name, hname, rfl⟩ := List.mem_map.mp hs
      exact hplain name hname
  have hcomponents := components_ofNames_text (.inr trivial : _ ∨ IsStep .parent) hsteps
  have htext : (List.replicate (dir :: climbed).length ".." ++ names) =
      (Component.parent :: (List.replicate climbed.length .parent ++ names.map .name)).map
        Component.text := by
    simp [List.replicate_succ, Component.text, Function.comp_def]
  rw [moduleFile, hmodule, ← intercalate_parents _ hnames, htext]
  rw [ofNames] at hcomponents
  rw [hcomponents, himporter, List.map_append, List.map_singleton, List.dropLast_concat]
  exact normal_climb dirs (dir :: climbed) names

theorem moduleFile_here (dirs : List String)
    (himporter : importer.components = (dirs ++ [file]).map .name)
    (hmodule : module ++ ".ts" = "/".intercalate ("." :: names))
    (hplain : ∀ s ∈ names, IsPlainName s) :
    importer.moduleFile module = (dirs ++ names).map .name := by
  have hsteps : ∀ s ∈ names.map Component.name, IsStep s := by
    intro s hs
    obtain ⟨name, hname, rfl⟩ := List.mem_map.mp hs
    exact hplain name hname
  have hcomponents := components_ofNames_text (.inl rfl : _ ∨ IsStep .current) hsteps
  have htext : "." :: names = (Component.current :: names.map .name).map Component.text := by
    simp [Component.text, Function.comp_def]
  rw [moduleFile, hmodule, htext]
  rw [ofNames] at hcomponents
  rw [hcomponents, himporter, List.map_append, List.map_singleton, List.dropLast_concat]
  have hnormal := normal_climb dirs [] names
  rw [List.append_nil] at hnormal
  rw [← hnormal, normal, normal, List.foldl_append, List.foldl_append]
  rfl

end Path

/-- An enum is reached by climbing out of all directories. -/
theorem Path.moduleFile_enum {importer : Path} {dirs : List String} {file : String}
    (himporter : importer.components = (dirs ++ [file]).map .name) (hdirs : dirs ≠ []) {n : Name}
    (hn : n.WellSpelled) :
    importer.moduleFile (climbText dirs.length ++ "enums/" ++ n.pascal) =
      n.enumPlace.map .name := by
  have htext : climbText dirs.length ++ "enums/" ++ n.pascal ++ ".ts" =
      climbText dirs.length ++ "/".intercalate n.enumPlace := by
    rw [← String.toList_inj]
    simp [Name.enumPlace, enumDirectory, String.intercalate_cons_cons]
  exact moduleFile_climb [] dirs himporter htext hdirs (List.cons_ne_nil _ _)
    hn.isPlainName_of_mem_enumPlace

theorem Artifact.moduleFile_enumIndex {names : NameTable} {n : Name} (hn : n.WellSpelled) :
    (enumIndexOf names).path.moduleFile ("./" ++ n.pascal) = n.enumPlace.map .name := by
  have hplain : IsPlainName (n.pascal ++ ".ts") := hn.isPlainName_pascal (by decide)
  refine Path.moduleFile_here [enumDirectory] (components_enumIndexOf names) ?_ (by simpa using hplain)
  rw [← String.toList_inj]
  simp [String.intercalate_cons_cons]

namespace NamedModel

variable {m : NamedModel} {n : Name}

theorem moduleFile_entity_entity (h : m.names.WellSpelled) (hn : n.WellSpelled) :
    m.entityPath.moduleFile ("../" ++ n.camel ++ "/" ++ Artifact.entityClassOf n) =
      n.entityPlace.map .name := by
  have hsome : n.entityPlace ≠ [] := List.cons_ne_nil _ _
  refine Path.moduleFile_climb [] [m.names.camel] (components_entityPath h) ?_ (by simp) hsome
    (hn.of_mem_modelPlaces n.entityPlace_mem).1
  rw [← String.toList_inj]
  simp [Path.climbText, Artifact.entityClassOf, String.intercalate_cons_cons]

/-- The modules of a model, seen from any file in its directory. -/
theorem moduleFile_own (h : m.names.WellSpelled) {importer : Path} {file : String}
    (himporter : importer.components = [.name m.names.camel, .name file]) :
    importer.moduleFile ("./" ++ m.entityModule) = m.entityPath.components ∧
      importer.moduleFile ("./" ++ m.serviceModule) = m.servicePath.components ∧
      importer.moduleFile ("./dtos/" ++ m.dtoModule) = m.dtoPath.components := by
  have hentity := (h.of_mem_modelPlaces m.names.entityPlace_mem).1
  have hservice := (h.of_mem_modelPlaces m.names.servicePlace_mem).1
  have hdto := (h.of_mem_modelPlaces m.names.dtoPlace_mem).1
  rw [components_entityPath h, components_servicePath h, components_dtoPath h]
  refine ⟨?_, ?_, ?_⟩
  · refine Path.moduleFile_here [m.names.camel] himporter ?_ fun s hs =>
      hentity s (List.mem_cons_of_mem _ hs)
    rw [← String.toList_inj]
    simp [entityModule, entityClass, String.intercalate_cons_cons]
  · refine Path.moduleFile_here [m.names.camel] himporter ?_ fun s hs =>
      hservice s (List.mem_cons_of_mem _ hs)
    rw [← String.toList_inj]
    simp [serviceModule, String.intercalate_cons_cons]
  · refine Path.moduleFile_here [m.names.camel] himporter ?_ fun s hs =>
      hdto s (List.mem_cons_of_mem _ hs)
    rw [← String.toList_inj]
    simp [dtoModule, String.intercalate_cons_cons]

end NamedModel

namespace Artifact

variable {c : Context} {tree : List Artifact}

theorem exists_enumFile (h : c.WellNamed) (htree : project c = .ok tree) {n : Name}
    (hn : n ∈ c.enumNames) :
    ∃ target ∈ tree, target.path.components = n.enumPlace.map .name ∧
      n.pascal ∈ target.body.declaredNames := by
  have hnamed := hn
  rw [← h.map_snd_namedEnums] at hnamed
  obtain ⟨⟨e, n⟩, hmem, rfl⟩ := List.mem_map.mp hnamed
  refine ⟨ofEnum e n, (mem_project_iff h htree).mpr (.enumeration hmem), ?_, ?_⟩
  · exact components_ofEnum e (h.wellSpelled_enum hn)
  · exact List.mem_singleton.mpr rfl

/-- The files that every model has. -/
theorem exists_modelFiles (h : c.WellNamed) (htree : project c = .ok tree) {m : NamedModel}
    (hm : m ∈ c.namedModels) :
    ∃ e d s, Entity.ofModel c m = .ok e ∧ CreateDto.ofModel c m = .ok d ∧
      Service.ofModel c m = .ok s ∧ ⟨m.entityPath, .entity e⟩ ∈ tree ∧
      ⟨m.dtoPath, .createDto d⟩ ∈ tree ∧ ⟨m.servicePath, .service s⟩ ∈ tree := by
  obtain ⟨files, hfiles⟩ := exists_ofModel h htree hm
  obtain ⟨e, he, d, hd, s, hs, -⟩ := ofModel_eq_ok.mp hfiles
  exact ⟨e, d, s, he, hd, hs, (mem_project_iff h htree).mpr (.entity hm he),
    (mem_project_iff h htree).mpr (.createDto hm hd),
    (mem_project_iff h htree).mpr (.service hm hs)⟩

theorem entityClass_declared {m : NamedModel} {e : Entity} (he : Entity.ofModel c m = .ok e) :
    m.entityClass ∈ (Body.entity e).declaredNames := by
  obtain ⟨key, hkey, -⟩ := entity_ofModel_eq_ok.mp he
  rw [declaredNames_entity he hkey]
  simp

theorem keyType_declared_iff {m : NamedModel} {e : Entity} {key : Option Key}
    (he : Entity.ofModel c m = .ok e) (hkey : m.model.key = .ok key) :
    m.keyType ∈ (Body.entity e).declaredNames ↔ key.isSome = true := by
  have hclass : m.keyType ≠ m.entityClass :=
    append_ne_append 3 (by decide) (by decide) (by decide)
  have hrelations : m.keyType ≠ m.relationsClass :=
    append_ne_append 3 (by decide) (by decide) (by decide)
  have hwith : m.keyType ≠ m.withRelationsType :=
    append_ne_append 3 (by decide) (by decide) (by decide)
  rw [declaredNames_entity he hkey]
  cases key with
  | some k => simp
  | none => split <;> simp [hclass, hrelations, hwith]

theorem bound_keyType_iff {m : NamedModel} {s : Service} {key : Option Key}
    (hs : Service.ofModel c m = .ok s) (hkey : m.model.key = .ok key) :
    m.keyType ∈ s.imports.boundNames ↔ key.isSome = true := by
  have hclass : m.entityClass ≠ m.keyType :=
    append_ne_append 3 (by decide) (by decide) (by decide)
  have hdto : m.createDtoClass ≠ m.keyType :=
    append_ne_append 3 (by decide) (by decide) (by decide)
  have hinjectable : "Injectable" ≠ m.keyType :=
    ne_of_ending_ne 3 (by rw [NamedModel.keyType, ending_append (by decide)]; decide)
  have hclient : "PrismaClient" ≠ m.keyType :=
    ne_of_ending_ne 3 (by rw [NamedModel.keyType, ending_append (by decide)]; decide)
  obtain ⟨client, -, key', hkey', rfl⟩ := service_ofModel_eq_ok.mp hs
  cases hkey.symm.trans hkey'
  rw [Imports.mem_boundNames]
  cases key with
  | some k => simp [Service.importsOf]
  | none => simp [Service.importsOf, hclass, hdto, hinjectable, hclient]

/-! ## Following the imports of a file

An import is followed from the directory of the file that has it. Entities and create-DTOs
lie at different depths and write different steps up; once these are undone what remains is
a place of the tree, which is looked up by the role of the file. -/

/-- What generated files take from the client of the database. -/
def IsClientImport (c : Context) (i : Import) : Prop :=
  c.clientImportPath = .ok i.module ∧ (i.name = clientNamespace ∨ i.name = "PrismaClient")

/-- An import that leads to an artifact of a tree which declares its name. -/
def Leads (tree : List Artifact) (importer : Path) (i : Import) : Prop :=
  ∃ target ∈ tree, importer.moduleFile i.module = target.path.components ∧
    i.name ∈ target.body.declaredNames

theorem isRelative_libraryImports :
    ∀ i ∈ libraryImports, Imports.isRelative i.module = false := by
  decide +kernel

theorem leads_enum (h : c.WellNamed) (htree : project c = .ok tree) {importer : Path}
    (dirs : List String) {file : String}
    (himporter : importer.components = (dirs ++ [file]).map .name) (hdirs : dirs ≠ []) {n : Name}
    (hn : n ∈ c.enumNames) :
    Leads tree importer ⟨Path.climbText dirs.length ++ "enums/" ++ n.pascal, n.pascal⟩ := by
  obtain ⟨target, htarget, hfile, hdeclared⟩ := exists_enumFile h htree hn
  refine ⟨target, htarget, ?_, hdeclared⟩
  rw [hfile]
  exact Path.moduleFile_enum himporter hdirs (h.wellSpelled_enum hn)

/-- An import of an enum leads, wherever the client of the database is. -/
theorem leads_of_isEnumImport (h : c.WellNamed) (htree : project c = .ok tree) {a : Artifact}
    (ha : a ∈ tree) {n : Name} (hn : n ∈ c.enumNames) {i : Import}
    (henum : IsEnumImport a.body.role n i) : Leads tree a.path i := by
  rcases exists_of_isEnumImport ((mem_project_iff h htree).mp ha) henum with
    ⟨m, hm, e, -, rfl, rfl⟩ | ⟨m, hm, d, -, rfl, rfl⟩
  · have hspelled := h.wellSpelled_model (h.names_mem hm)
    exact leads_enum h htree [m.names.camel] (NamedModel.components_entityPath hspelled)
      (List.cons_ne_nil _ _) hn
  · have hspelled := h.wellSpelled_model (h.names_mem hm)
    exact leads_enum h htree [m.names.camel, "dtos"]
      (NamedModel.components_dtoPath hspelled) (List.cons_ne_nil _ _) hn

theorem leads_of_origin_entity (h : c.WellNamed) (htree : project c = .ok tree) {m : NamedModel}
    (hm : m ∈ c.namedModels) {i : Import} (hi : Origin c m .entity i)
    (hrelative : Imports.isRelative i.module = true) :
    IsClientImport c i ∨ Leads tree m.entityPath i := by
  have hspelled := h.wellSpelled_model (h.names_mem hm)
  cases hi with
  | library hi =>
      rw [isRelative_libraryImports i hi] at hrelative
      cases hrelative
  | clientTypes hpath => exact .inl ⟨hpath, .inl rfl⟩
  | entityEnum hn =>
      exact .inr (leads_enum h htree [m.names.camel] (NamedModel.components_entityPath hspelled)
        (List.cons_ne_nil _ _) hn)
  | @otherEntity n hn hne =>
      obtain ⟨other, hother, rfl⟩ := h.exists_namedModel hn
      obtain ⟨e, d, s, he, -, -, hmem, -, -⟩ := exists_modelFiles h htree hother
      refine .inr ⟨_, hmem, ?_, entityClass_declared he⟩
      rw [NamedModel.components_entityPath (h.wellSpelled_model hn)]
      exact NamedModel.moduleFile_entity_entity hspelled (h.wellSpelled_model hn)

theorem leads_of_origin_createDto (h : c.WellNamed) (htree : project c = .ok tree)
    {m : NamedModel} (hm : m ∈ c.namedModels) {i : Import} (hi : Origin c m .createDto i)
    (hrelative : Imports.isRelative i.module = true) :
    IsClientImport c i ∨ Leads tree m.dtoPath i := by
  have hspelled := h.wellSpelled_model (h.names_mem hm)
  cases hi with
  | library hi =>
      rw [isRelative_libraryImports i hi] at hrelative
      cases hrelative
  | clientTypes hpath => exact .inl ⟨hpath, .inl rfl⟩
  | dtoEnum hn =>
      exact .inr (leads_enum h htree [m.names.camel, "dtos"]
        (NamedModel.components_dtoPath hspelled) (List.cons_ne_nil _ _) hn)

theorem leads_of_origin_service (h : c.WellNamed) (htree : project c = .ok tree)
    {m : NamedModel} (hm : m ∈ c.namedModels) {i : Import} (hi : Origin c m .service i)
    (hrelative : Imports.isRelative i.module = true) :
    IsClientImport c i ∨ Leads tree m.servicePath i := by
  have hspelled := h.wellSpelled_model (h.names_mem hm)
  obtain ⟨e, d, s, he, hd, hs, hentity, hdto, -⟩ := exists_modelFiles h htree hm
  obtain ⟨hentityFile, -, hdtoFile⟩ :=
    NamedModel.moduleFile_own hspelled (NamedModel.components_servicePath hspelled)
  cases hi with
  | library hi =>
      rw [isRelative_libraryImports i hi] at hrelative
      cases hrelative
  | clientTypes hpath => exact .inl ⟨hpath, .inl rfl⟩
  | client hpath => exact .inl ⟨hpath, .inr rfl⟩
  | ownEntity => exact .inr ⟨_, hentity, hentityFile, entityClass_declared he⟩
  | ownDto =>
      refine .inr ⟨_, hdto, hdtoFile, ?_⟩
      rw [declaredNames_createDto hd]
      exact List.mem_singleton.mpr rfl
  | ownKey hkey =>
      exact .inr ⟨_, hentity, hentityFile, (keyType_declared_iff he hkey).mpr rfl⟩

/-- Every import of a file is one from a package, one from the client, or leads. -/
theorem leads_of_mem_imports (h : c.WellNamed) (htree : project c = .ok tree) {a : Artifact}
    (ha : a ∈ tree) {i : Import} (hi : i ∈ a.body.imports.entries)
    (hrelative : Imports.isRelative i.module = true) :
    IsClientImport c i ∨ Leads tree a.path i := by
  cases (mem_project_iff h htree).mp ha with
  | enumeration hmem => cases hi
  | modelIndex hm hindex => cases hi
  | enumIndex hindex hsome => cases hi
  | entity hm he => exact leads_of_origin_entity h htree hm (origin_entity h he i hi) hrelative
  | createDto hm hd =>
      exact leads_of_origin_createDto h htree hm (origin_createDto h hd i hi) hrelative
  | service hm hs => exact leads_of_origin_service h htree hm (origin_service hs i hi) hrelative

/-- Every line of an index leads. -/
theorem exists_of_mem_passedOn (h : c.WellNamed) (htree : project c = .ok tree) {a : Artifact}
    (ha : a ∈ tree) {module : String} (hmodule : module ∈ a.body.passedOn) :
    ∃ target ∈ tree, a.path.moduleFile module = target.path.components := by
  cases (mem_project_iff h htree).mp ha with
  | enumeration hmem => cases hmodule
  | entity hm he => cases hmodule
  | createDto hm hd => cases hmodule
  | service hm hs => cases hmodule
  | @modelIndex m hm hindex =>
      have hspelled := h.wellSpelled_model (h.names_mem hm)
      obtain ⟨e, d, s, -, -, -, hentity, hdto, hservice⟩ := exists_modelFiles h htree hm
      obtain ⟨hentityFile, hserviceFile, hdtoFile⟩ :=
        NamedModel.moduleFile_own hspelled (NamedModel.components_indexPath hspelled)
      obtain ⟨module, hmem, rfl⟩ := List.mem_map.mp hmodule
      have hcases : module = m.entityModule ∨ module = m.serviceModule ∨
          module = "dtos/" ++ m.dtoModule := by
        simpa using Text.mem_ascending.mp hmem
      rcases hcases with rfl | rfl | rfl
      · exact ⟨_, hentity, hentityFile⟩
      · exact ⟨_, hservice, hserviceFile⟩
      · refine ⟨_, hdto, ?_⟩
        rw [← String.append_assoc]
        exact hdtoFile
  | enumIndex hindex hsome =>
      obtain ⟨module, hmem, rfl⟩ := List.mem_map.mp hmodule
      obtain ⟨n, hn, rfl⟩ := List.mem_map.mp (Text.mem_ascending.mp hmem)
      obtain ⟨target, htarget, hfile, -⟩ := exists_enumFile h htree hn
      refine ⟨target, htarget, ?_⟩
      rw [hfile]
      exact moduleFile_enumIndex (h.wellSpelled_enum hn)

end Artifact

/-- A file that exports a name: the artifact behind it declares the name, and the declaration
stands in the content behind `export`. -/
def GeneratedFile.Exports (f : GeneratedFile) (b : Artifact.Body) (name : String) : Prop :=
  ∃ d ∈ b.declarations, d.name = name ∧ f.Contains d.header

theorem GeneratedFile.Holds.exports_iff {f : GeneratedFile} {a : Artifact} (h : f.Holds a)
    {name : String} : f.Exports a.body name ↔ name ∈ a.body.declaredNames := by
  rw [Artifact.Body.declaredNames, List.mem_map]
  constructor
  · rintro ⟨d, hd, hname, -⟩
    exact ⟨d, hd, hname⟩
  · rintro ⟨d, hd, hname⟩
    exact ⟨d, hd, hname, h.contains_header hd⟩

/-- An import that leads, from where it is written, to a file which exports its name. -/
def Output.Provides (out : Output) (tree : List Artifact) (importer : Path) (i : Import) : Prop :=
  ∃ g ∈ out.files, ∃ target ∈ tree, g.Holds target ∧
    importer.moduleFile i.module = g.path.components ∧ g.Exports target.body i.name

/-- A file that passes on what modules export, with a line for each of them. -/
def GeneratedFile.PassesOnModules (f : GeneratedFile) (modules : List String) : Prop :=
  f.content = banner ++ "\n\n" ++
    String.join (modules.map fun module => "export * from \"" ++ module ++ "\";\n")

theorem GeneratedFile.Holds.passesOnModules {f : GeneratedFile} {a : Artifact} (h : f.Holds a)
    (hrole : f.role = .index) : f.PassesOnModules a.body.passedOn := by
  rw [h.role] at hrole
  rw [PassesOnModules, h.content]
  cases hbody : a.body with
  | index file =>
      rw [Artifact.Body.passedOn, List.map_map, Artifact.Body.text, Artifact.Index.text]
      refine congrArg (fun lines => banner ++ "\n\n" ++ String.join lines) ?_
      refine List.map_congr_left fun module _ => ?_
      rw [Function.comp_apply, ← String.toList_inj]
      simp
  | enumeration file | entity file | createDto file | service file =>
      rw [hbody] at hrole
      cases hrole

section Runs

variable {options : Options} {config : Config} {env : Environment} {workingDirectory : Path}
  {c : Context} {tree : List Artifact} {out : Output}

theorem Generates.provides (h : Generates options config env workingDirectory c tree out)
    {importer : Path} {i : Import} (hleads : Artifact.Leads tree importer i) :
    out.Provides tree importer i := by
  obtain ⟨target, htarget, hfile, hdeclared⟩ := hleads
  obtain ⟨g, hg⟩ := h.exists_file htarget
  refine ⟨g, Output.mem_files_of_filesAt hg.alone, target, htarget, hg.holds, ?_,
    hg.holds.exports_iff.mpr hdeclared⟩
  rw [hg.holds.path, hfile]

/-- A generated tree is closed under its references. Of every file of a run this says: its
relative imports, but for those from the client of the database, lead to files that export
the imported names, and those of enums do so even where the client seems to stand in their
place; and an index consists of lines that lead to files. A service imports the type of a
key exactly if the entity of its model exports it. -/
theorem generate_references (h : generate options config env workingDirectory = .ok out) :
    ∃ c tree, Generates options config env workingDirectory c tree out ∧
      (∀ f ∈ out.files, ∃ a ∈ tree, f.Holds a ∧ f.WritesImports a.body.imports ∧
        (∀ module ∈ a.body.imports.modules, ∀ name ∈ a.body.imports.names module,
          Imports.isRelative module = true → Artifact.IsClientImport c ⟨module, name⟩ ∨
            out.Provides tree f.path ⟨module, name⟩) ∧
        (∀ n ∈ c.enumNames, ∀ i ∈ a.body.imports.entries,
          Artifact.IsEnumImport f.role n i → out.Provides tree f.path i) ∧
        (f.role = .index → f.PassesOnModules a.body.passedOn) ∧
        ∀ module ∈ a.body.passedOn, ∃ g ∈ out.files,
          f.path.moduleFile module = g.path.components) ∧
      ∀ m ∈ c.namedModels, ∃ f g e s,
        out.HandsOver ⟨m.entityPath, .entity e⟩ f ∧ out.HandsOver ⟨m.servicePath, .service s⟩ g ∧
        g.WritesImports s.imports ∧
        (m.keyType ∈ s.imports.boundNames ↔ f.Exports (.entity e) m.keyType) := by
  obtain ⟨c, tree, hrun⟩ := exists_generates h
  refine ⟨c, tree, hrun, fun f hf => ?_, fun m hm => ?_⟩
  · obtain ⟨a, ha, hholds⟩ := hrun.exists_artifact hf
    refine ⟨a, ha, hholds, hholds.writesImports, ?_, ?_, hholds.passesOnModules, ?_⟩
    · intro module _ name hname hrelative
      rw [hholds.path]
      exact (Artifact.leads_of_mem_imports hrun.wellNamed hrun.project ha
        (Imports.mem_names.mp hname) hrelative).imp_right hrun.provides
    · intro n hn i _ henum
      rw [hholds.role] at henum
      rw [hholds.path]
      exact hrun.provides
        (Artifact.leads_of_isEnumImport hrun.wellNamed hrun.project ha hn henum)
    · intro module hmodule
      obtain ⟨target, htarget, hfile⟩ :=
        Artifact.exists_of_mem_passedOn hrun.wellNamed hrun.project ha hmodule
      obtain ⟨g, hg⟩ := hrun.exists_file htarget
      refine ⟨g, Output.mem_files_of_filesAt hg.alone, ?_⟩
      rw [hholds.path, hg.holds.path, hfile]
  · obtain ⟨e, d, s, he, -, hs, hentity, -, hservice⟩ :=
      Artifact.exists_modelFiles hrun.wellNamed hrun.project hm
    obtain ⟨key, hkey, -⟩ := Artifact.entity_ofModel_eq_ok.mp he
    obtain ⟨f, hf⟩ := hrun.exists_file hentity
    obtain ⟨g, hg⟩ := hrun.exists_file hservice
    refine ⟨f, g, e, s, hf, hg, hg.holds.writesImports, ?_⟩
    rw [Artifact.bound_keyType_iff hs hkey, ← Artifact.keyType_declared_iff he hkey]
    exact hf.holds.exports_iff.symm

end Runs

theorem generate_references_smallDatamodel :
    ∃ out, generate (.ofDatamodel smallDatamodel) .standard (fun _ => none) ⟨"/work"⟩ = .ok out ∧
      ∃ c tree, Generates (.ofDatamodel smallDatamodel) .standard (fun _ => none) ⟨"/work"⟩ c tree
          out ∧ ∃ f, out.filesAt ⟨"user/userBase.service.ts"⟩ = [f] ∧
        f.Contains "import \x7b UserBase, UserKey \x7d from \"./UserBase\";\n" ∧
        out.Provides tree f.path ⟨"./UserBase", "UserKey"⟩ := by
  obtain ⟨out, hout⟩ := exists_generate_smallDatamodel
  obtain ⟨c, tree, hrun, hfiles, -⟩ := generate_references hout
  obtain ⟨f, hf, -, hcheck⟩ := hrun.exists_file_of_any ⟨"user/userBase.service.ts"⟩
    (p := fun b => decide (b.imports.names "./UserBase" = ["UserBase", "UserKey"]))
    (by decide +kernel)
  obtain ⟨a, ha, hholds, himports, hleads, -⟩ := hfiles f (Output.mem_files_of_filesAt hf)
  have hnames := of_decide_eq_true (hcheck a ha hholds)
  have hname : "UserKey" ∈ a.body.imports.names "./UserBase" := by
    rw [hnames]
    decide
  have hmodule := (himports.modules "./UserBase").mpr ⟨_, (himports.names _ _).mp hname, rfl⟩
  refine ⟨out, hout, c, tree, hrun, f, hf, ?_, ?_⟩
  · have hline := himports.contains_line hmodule
    rw [hnames] at hline
    exact hline
  · refine (hleads _ hmodule _ hname (by decide +kernel)).resolve_left fun hclient => ?_
    exact absurd hclient.2 (by decide)

end Scaffold
