import Scaffold.Proofs.Places
import Scaffold.Proofs.Validation

/-!
# A declaration owns its files

What is generated for a model is read off the model, the configuration, the module of
the database client and the spellings of the names that the model mentions. The last
are the only door through which other declarations could come in, and it is shut: a
table holds under a declared name the spelling of that name, so two tables that both
declare it agree on it, whatever else they hold.

`AgreeOn` collects what two contexts must have in common for one model. The converters
are then walked through once, and each gives the same result in both.

A run hands over one long list of files. The files of a model are found in it by their
directory, which no other declaration shares, and the file of an enum by its path.
-/

namespace Scaffold

open Document (Environment Options)
open Naming (Name)
open Schema

namespace NameTable.Spells

variable {table table' : NameTable} {names names' : List String}

/-- Two tables agree on every name that both declare. -/
theorem find?_eq_find? (h : table.Spells names) (h' : table'.Spells names') {name : String}
    (hname : name ∈ names) (hname' : name ∈ names') : table.find? name = table'.find? name := by
  obtain ⟨n, hn, -⟩ := h.exists_ofIdentifier hname
  rw [h.find?_eq_some_of_ofIdentifier hname hn, h'.find?_eq_some_of_ofIdentifier hname' hn]

/-- Declarations and the table of their names, side by side. -/
theorem mem_zip_iff {α : Type} {name : α → String} {items : List α}
    (h : table.Spells (items.map name)) {x : α} {n : Name} :
    (x, n) ∈ items.zip table ↔ x ∈ items ∧ Name.ofIdentifier (name x) = .ok n := by
  have hspelled := List.forall₂_map_left_iff.mp h.spelled
  have hzip : ∀ {y : α} {k : Name}, (y, k) ∈ items.zip table → Name.ofIdentifier (name y) = .ok k :=
    (List.forall₂_iff_zip.mp hspelled).2
  constructor
  · intro hmem
    exact ⟨(List.of_mem_zip hmem).1, hzip hmem⟩
  · rintro ⟨hx, hn⟩
    have hfst : (items.zip table).map Prod.fst = items :=
      List.map_fst_zip (Nat.le_of_eq hspelled.length_eq)
    rw [← hfst] at hx
    obtain ⟨⟨x', n'⟩, hmem, rfl⟩ := List.mem_map.mp hx
    have hn' := hzip hmem
    rw [hn] at hn'
    rw [Except.ok.inj hn']
    exact hmem

end NameTable.Spells

namespace Context.WellNamed

variable {c : Context}

theorem mem_namedEnums (h : c.WellNamed) {e : Enumeration} {n : Name} :
    (e, n) ∈ c.namedEnums ↔ e ∈ c.datamodel.enums ∧ Name.ofIdentifier e.name = .ok n :=
  h.enums.mem_zip_iff

theorem mem_namedModels (h : c.WellNamed) {m : NamedModel} :
    m ∈ c.namedModels ↔
      m.model ∈ c.datamodel.models ∧ Name.ofIdentifier m.model.name = .ok m.names := by
  rw [← h.models.mem_zip_iff, namedModels, List.mem_map]
  constructor
  · rintro ⟨entry, hentry, rfl⟩
    exact hentry
  · intro hmem
    exact ⟨_, hmem, rfl⟩

end Context.WellNamed

/-! ## Contexts that agree on a model

The files of a model depend on a context only through the configuration, the module of the
client and the types of the model's own fields. `AgreeOn` asks that two contexts have these
in common, whatever else they declare. -/

/-- What two contexts have in common as far as one model can see. -/
structure Context.AgreeOn (c c' : Context) (m : Model) : Prop where
  config : c.config = c'.config
  client : c.clientImportPath = c'.clientImportPath
  types : ∀ f ∈ m.fields,
    Artifact.FieldType.ofField c m.name f = Artifact.FieldType.ofField c' m.name f

namespace Artifact

variable {c c' : Context} {m : NamedModel}

/-- A type that both contexts declare is the same type in both. -/
theorem FieldType.ofField_congr (h : c.WellNamed) (h' : c'.WellNamed) (model : String)
    {f : Field} (hf : c.datamodel.Declares f.kind) (hf' : c'.datamodel.Declares f.kind) :
    FieldType.ofField c model f = FieldType.ofField c' model f := by
  have hreference : FieldType.referenceOf c model f = FieldType.referenceOf c' model f := by
    rw [FieldType.referenceOf, FieldType.referenceOf]
    cases hkind : f.kind with
    | scalar type => rfl
    | object name => rfl
    | enumeration name =>
        rw [hkind] at hf hf'
        have hfind := h.enums.find?_eq_find? h'.enums hf hf'
        dsimp only
        rw [hfind]
    | relation r =>
        rw [hkind] at hf hf'
        have hfind := h.models.find?_eq_find? h'.models hf hf'
        dsimp only
        rw [hfind]
  rw [FieldType.ofField, FieldType.ofField, hreference]

theorem entity_congr (h : c.AgreeOn c' m.model) : Entity.ofModel c m = Entity.ofModel c' m := by
  have htyped : typedFields c m.model = typedFields c' m.model := by
    refine mapM_congr fun f hf => ?_
    rw [h.types f hf]
  have himport : ∀ t, entityImport? c m t = entityImport? c' m t := by
    intro t
    rw [entityImport?, entityImport?, h.client]
  have hdecorators : entityDecorators c = entityDecorators c' := by
    funext t
    rw [entityDecorators, entityDecorators, h.config]
  have hproperty : entityProperty c = entityProperty c' := by
    funext t
    rw [entityProperty, entityProperty, hdecorators]
  rw [Entity.ofModel, Entity.ofModel]
  simp only [htyped, himport, hdecorators, hproperty, h.config]

theorem createDto_congr (h : c.AgreeOn c' m.model) :
    CreateDto.ofModel c m = CreateDto.ofModel c' m := by
  have hfields : m.createFields.mapM (dtoField c m.model.name) =
      m.createFields.mapM (dtoField c' m.model.name) := by
    refine mapM_congr fun f hf => ?_
    have htype := h.types f (List.mem_of_mem_filter hf)
    have himport : ∀ t, dtoImport? c t = dtoImport? c' t := by
      intro t
      rw [dtoImport?, dtoImport?, h.client]
    have hproperty : ∀ t, dtoProperty c f t = dtoProperty c' f t := by
      intro t
      rw [dtoProperty, dtoProperty, dtoDecorators, dtoDecorators, h.config]
    rw [dtoField, dtoField, htype]
    simp only [himport, hproperty]
  rw [CreateDto.ofModel, CreateDto.ofModel, hfields]

theorem service_congr (h : c.AgreeOn c' m.model) : Service.ofModel c m = Service.ofModel c' m := by
  rw [Service.ofModel, Service.ofModel, h.client]

/-- The files of a model are the same in all contexts that agree on the model. -/
theorem ofModel_congr (h : c.AgreeOn c' m.model) : ofModel c m = ofModel c' m := by
  rw [ofModel, ofModel, entity, entity, createDto, createDto, service, service, entity_congr h,
    createDto_congr h, service_congr h, h.config]

end Artifact

theorem Generates.sound {options : Options} {config : Config} {env : Environment}
    {workingDirectory : Path} {c : Context} {tree : List Artifact} {out : Output}
    (h : Generates options config env workingDirectory c tree out) : c.datamodel.Sound := by
  rw [(Context.ofOptions_spec h.context).1]
  exact Datamodel.validate_eq_ok_iff.mp h.valid

theorem Generates.config_eq {options : Options} {config : Config} {env : Environment}
    {workingDirectory : Path} {c : Context} {tree : List Artifact} {out : Output}
    (h : Generates options config env workingDirectory c tree out) : c.config = config :=
  (Context.ofOptions_spec h.context).2.1

theorem Generates.datamodel_eq {options : Options} {config : Config} {env : Environment}
    {workingDirectory : Path} {c : Context} {tree : List Artifact} {out : Output}
    (h : Generates options config env workingDirectory c tree out) :
    c.datamodel = options.datamodel :=
  (Context.ofOptions_spec h.context).1

theorem Generates.clientImportPath_eq {options : Options} {config : Config}
    {env : Environment} {workingDirectory : Path} {c : Context} {tree : List Artifact}
    {out : Output} (h : Generates options config env workingDirectory c tree out)
    {paths : ClientPaths} (hpaths : ClientPaths.resolve options env workingDirectory = .ok paths) :
    c.clientImportPath = .ok paths.importPath := by
  obtain ⟨-, -, -, paths', hpaths', hplaced⟩ := Context.ofOptions_spec h.context
  rw [hpaths] at hpaths'
  rw [Context.clientImportPath, hplaced, Except.ok.inj hpaths']

/-- Two runs under one configuration that import one client agree on every model that
both declare. -/
theorem Generates.agreeOn {options options' : Options} {config : Config}
    {env env' : Environment} {workingDirectory workingDirectory' : Path} {c c' : Context}
    {tree tree' : List Artifact} {out out' : Output}
    (h : Generates options config env workingDirectory c tree out)
    (h' : Generates options' config env' workingDirectory' c' tree' out')
    (hclient : c.clientImportPath = c'.clientImportPath) {m : Model}
    (hm : m ∈ c.datamodel.models) (hm' : m ∈ c'.datamodel.models) : c.AgreeOn c' m := by
  refine ⟨?_, hclient, ?_⟩
  · rw [h.config_eq, h'.config_eq]
  · intro f hf
    exact Artifact.FieldType.ofField_congr h.wellNamed h'.wellNamed m.name
      (h.sound.types m hm f hf) (h'.sound.types m hm' f hf)

/-- The files of an output that lie in a directory, in order. -/
def Output.filesIn (o : Output) (directory : String) : List GeneratedFile :=
  o.files.filter fun f => f.path.components.head? = some (.name directory)

/-- The files of an output at a path. -/
def Output.filesAt (o : Output) (path : Path) : List GeneratedFile :=
  o.files.filter fun f => f.path = path

theorem Output.mem_files_of_filesAt {o : Output} {path : Path} {f : GeneratedFile}
    (h : o.filesAt path = [f]) : f ∈ o.files := by
  have hmem : f ∈ o.filesAt path := by
    rw [h]
    exact List.mem_singleton.mpr rfl
  exact (List.mem_filter.mp hmem).1

/-- The paths and roles of the files of a model. -/
def NamedModel.manifest (m : NamedModel) (withIndex : Bool) : List (Path × Artifact.Role) :=
  [(m.entityPath, .entity), (m.dtoPath, .createDto), (m.servicePath, .service)] ++
    if withIndex then [(m.indexPath, .index)] else []

namespace Artifact

variable {c : Context} {m : NamedModel} {files : List Artifact}

theorem map_toFile_ofModel (hfiles : ofModel c m = .ok files) :
    (files.map toFile).map (fun f => (f.path, f.role)) = m.manifest c.config.makeIndexFile := by
  obtain ⟨e, -, d, -, s, -, rfl⟩ := ofModel_eq_ok.mp hfiles
  rw [NamedModel.manifest]
  cases c.config.makeIndexFile with
  | true => rfl
  | false => rfl

/-- The files of a model lie in its directory. -/
theorem head?_of_mem_ofModel (h : m.names.WellSpelled) (hfiles : ofModel c m = .ok files)
    {a : Artifact} (ha : a ∈ files) : a.path.components.head? = some (.name m.names.camel) := by
  rcases (mem_ofModel_iff hfiles).mp ha with ⟨e, -, rfl⟩ | ⟨d, -, rfl⟩ | ⟨s, -, rfl⟩ | ⟨-, rfl⟩
  · rw [NamedModel.components_entityPath h]
    rfl
  · rw [NamedModel.components_dtoPath h]
    rfl
  · rw [NamedModel.components_servicePath h]
    rfl
  · rw [modelIndex, NamedModel.components_indexPath h]
    rfl

/-- Of the files of several models, those in the directory of one are its own. -/
theorem filter_flatten_ofModel {models : List NamedModel} {modelFiles : List (List Artifact)}
    (hmodels : List.Forall₂ (fun m files => ofModel c m = .ok files) models modelFiles)
    (hspelled : ∀ m ∈ models, m.names.WellSpelled)
    (hapart : models.Pairwise fun a b => a.names.camel ≠ b.names.camel)
    (hm : m ∈ models) (hfiles : ofModel c m = .ok files) :
    modelFiles.flatten.filter
      (fun a => a.path.components.head? = some (.name m.names.camel)) = files := by
  -- The directory of a model selects all of its own files and none of another model's.
  have hown : ∀ {m' : NamedModel} {files' : List Artifact}, m'.names.WellSpelled →
      ofModel c m' = .ok files' → m'.names.camel = m.names.camel →
      files'.filter (fun a => a.path.components.head? = some (.name m.names.camel)) = files' := by
    intro m' files' hspelled' hfiles' hcamel
    refine List.filter_eq_self.mpr fun a ha => ?_
    rw [head?_of_mem_ofModel hspelled' hfiles' ha, hcamel]
    simp
  have hother : ∀ {m' : NamedModel} {files' : List Artifact}, m'.names.WellSpelled →
      ofModel c m' = .ok files' → m'.names.camel ≠ m.names.camel →
      files'.filter (fun a => a.path.components.head? = some (.name m.names.camel)) = [] := by
    intro m' files' hspelled' hfiles' hcamel
    refine List.filter_eq_nil_iff.mpr fun a ha => ?_
    rw [head?_of_mem_ofModel hspelled' hfiles' ha]
    simpa using hcamel
  induction hmodels with
  | nil => cases hm
  | @cons first firstFiles rest restFiles hfirst hrest ih =>
      obtain ⟨hhead, htail⟩ := List.pairwise_cons.mp hapart
      have hfirstSpelled := hspelled first (by simp)
      rw [List.flatten_cons, List.filter_append]
      rcases List.mem_cons.mp hm with rfl | hm
      · have hnone : restFiles.flatten.filter
            (fun a => a.path.components.head? = some (.name m.names.camel)) = [] := by
          refine List.filter_eq_nil_iff.mpr fun a ha => ?_
          obtain ⟨files', hmem, ha⟩ := List.mem_flatten.mp ha
          obtain ⟨m', hm', hfiles'⟩ := (mem_of_mapM_eq_ok (mapM_eq_ok_iff.mpr hrest)).mp hmem
          have hempty := hother (hspelled m' (by simp [hm'])) hfiles' (hhead m' hm').symm
          exact List.filter_eq_nil_iff.mp hempty a ha
        rw [hfirst] at hfiles
        cases hfiles
        rw [hown hfirstSpelled hfirst rfl, hnone, List.append_nil]
      · rw [hother hfirstSpelled hfirst (hhead m hm), List.nil_append]
        exact ih (fun m' hm' => hspelled m' (by simp [hm'])) htail hm

end Artifact

namespace Context.WellNamed

variable {c : Context}

theorem wellSpelled_names (h : c.WellNamed) {m : NamedModel} (hm : m ∈ c.namedModels) :
    m.names.WellSpelled :=
  h.wellSpelled_model (h.names_mem hm)

theorem pairwise_camel (h : c.WellNamed) :
    c.namedModels.Pairwise fun a b => a.names.camel ≠ b.names.camel := by
  have hnames := h.models.apart.imp fun {a b : Name} (hab : a.Apart b) => hab.camel
  rw [← h.map_names, List.pairwise_map] at hnames
  exact hnames

end Context.WellNamed

namespace Generates

variable {options : Options} {config : Config} {env : Environment} {workingDirectory : Path}
  {c : Context} {tree : List Artifact} {out : Output}

/-- The files in the directory of a model are the files made of the model. -/
theorem filesIn_camel (h : Generates options config env workingDirectory c tree out)
    {m : NamedModel} (hm : m ∈ c.namedModels) {files : List Artifact}
    (hfiles : Artifact.ofModel c m = .ok files) :
    out.filesIn m.names.camel = files.map Artifact.toFile := by
  obtain ⟨modelFiles, hmodels, htree⟩ := (Artifact.project_eq_ok h.wellNamed).mp h.project
  have hdirectory := h.wellNamed.directories m.names (h.wellNamed.names_mem hm)
  have henums : (c.namedEnums.map fun entry => Artifact.ofEnum entry.1 entry.2).filter
      (fun a => a.path.components.head? = some (.name m.names.camel)) = [] := by
    refine List.filter_eq_nil_iff.mpr fun a ha => ?_
    obtain ⟨⟨e, n⟩, hentry, rfl⟩ := List.mem_map.mp ha
    have hn : n ∈ c.enumNames := (List.of_mem_zip hentry).2
    rw [Artifact.components_ofEnum e (h.wellNamed.wellSpelled_enum hn)]
    simpa [Name.enumPlace] using hdirectory.symm
  have hindex : (if c.config.makeIndexFile && !c.datamodel.enums.isEmpty then
        [Artifact.enumIndexOf c.enumNames] else []).filter
      (fun a => a.path.components.head? = some (.name m.names.camel)) = [] := by
    refine List.filter_eq_nil_iff.mpr fun a ha => ?_
    split at ha
    · rw [List.mem_singleton.mp ha, Artifact.components_enumIndexOf]
      simpa [enumIndexPlace] using hdirectory.symm
    · cases ha
  have hown := Artifact.filter_flatten_ofModel (mapM_eq_ok_iff.mp hmodels)
    (fun m' hm' => h.wellNamed.wellSpelled_names hm') h.wellNamed.pairwise_camel hm hfiles
  have hfilter : tree.filter
      (fun a => a.path.components.head? = some (.name m.names.camel)) = files := by
    rw [← htree, List.filter_append, List.filter_append, henums, hown, hindex, List.nil_append,
      List.append_nil]
  rw [Output.filesIn, h.files, List.filter_map, ← hfilter]
  rfl

/-- At the path of an artifact of the tree stands its file and no other. -/
theorem filesAt_path (h : Generates options config env workingDirectory c tree out)
    {a : Artifact} (ha : a ∈ tree) : out.filesAt a.path = [a.toFile] := by
  have hdistinct := h.pairwise_components
  have hmem : a.toFile ∈ out.files := by
    rw [h.files]
    exact List.mem_map_of_mem ha
  obtain ⟨before, after, hfiles⟩ := List.append_of_mem hmem
  rw [hfiles, List.map_append, List.map_cons,
    List.pairwise_middle fun {_ _} hpq => SideBySide.symm hpq, ← List.map_append] at hdistinct
  have hother : (before ++ after).filter (fun f => f.path = a.path) = [] := by
    refine List.filter_eq_nil_iff.mpr fun f hf => ?_
    have hne := ((List.pairwise_cons.mp hdistinct).1 _ (List.mem_map_of_mem hf)).ne
    rw [decide_eq_true_eq]
    intro heq
    exact hne (by rw [heq]; rfl)
  obtain ⟨hbefore, hafter⟩ := List.append_eq_nil_iff.mp (List.filter_append .. ▸ hother)
  have hself : a.toFile.path = a.path := rfl
  rw [Output.filesAt, hfiles, List.filter_append, hbefore, List.filter_cons, hself, hafter]
  simp

end Generates

/-- Two runs under one configuration that import one client hand over the same files for
every model and every enum that both declare, whatever else either declares. -/
theorem generate_shared_declarations {options options' : Options} {config : Config}
    {env env' : Environment} {workingDirectory workingDirectory' : Path} {out out' : Output}
    {paths paths' : ClientPaths}
    (h : generate options config env workingDirectory = .ok out)
    (h' : generate options' config env' workingDirectory' = .ok out')
    (hpaths : ClientPaths.resolve options env workingDirectory = .ok paths)
    (hpaths' : ClientPaths.resolve options' env' workingDirectory' = .ok paths')
    (hclient : paths.importPath = paths'.importPath) :
    (∀ m ∈ options.datamodel.models, m ∈ options'.datamodel.models →
      ∃ n, Name.ofIdentifier m.name = .ok n ∧
        out.filesIn n.camel = out'.filesIn n.camel ∧
        (out.filesIn n.camel).map (fun f => (f.path, f.role)) =
          (NamedModel.mk m n).manifest config.makeIndexFile) ∧
      ∀ e ∈ options.datamodel.enums, e ∈ options'.datamodel.enums →
        ∃ n, Name.ofIdentifier e.name = .ok n ∧
          ∃ f, f.role = .enumeration ∧
            out.filesAt ⟨enumDirectory ++ "/" ++ n.pascal ++ ".ts"⟩ = [f] ∧
            out'.filesAt ⟨enumDirectory ++ "/" ++ n.pascal ++ ".ts"⟩ = [f] := by
  obtain ⟨c, tree, hrun⟩ := exists_generates h
  obtain ⟨c', tree', hrun'⟩ := exists_generates h'
  have hclient : c.clientImportPath = c'.clientImportPath := by
    rw [hrun.clientImportPath_eq hpaths, hrun'.clientImportPath_eq hpaths', hclient]
  constructor
  · intro m hm hm'
    rw [← hrun.datamodel_eq] at hm
    rw [← hrun'.datamodel_eq] at hm'
    obtain ⟨n, hn, -⟩ := hrun.wellNamed.models.exists_ofIdentifier (List.mem_map_of_mem hm)
    have hnamed : NamedModel.mk m n ∈ c.namedModels := hrun.wellNamed.mem_namedModels.mpr ⟨hm, hn⟩
    have hnamed' : NamedModel.mk m n ∈ c'.namedModels :=
      hrun'.wellNamed.mem_namedModels.mpr ⟨hm', hn⟩
    obtain ⟨files, hfiles⟩ := Artifact.exists_ofModel hrun.wellNamed hrun.project hnamed
    have hfiles' : Artifact.ofModel c' ⟨m, n⟩ = .ok files := by
      rw [← Artifact.ofModel_congr (hrun.agreeOn hrun' hclient hm hm'), hfiles]
    have hin := hrun.filesIn_camel hnamed hfiles
    refine ⟨n, hn, ?_, ?_⟩
    · rw [hin, hrun'.filesIn_camel hnamed' hfiles']
    · rw [hin, Artifact.map_toFile_ofModel hfiles, hrun.config_eq]
  · intro e he he'
    rw [← hrun.datamodel_eq] at he
    rw [← hrun'.datamodel_eq] at he'
    obtain ⟨n, hn, -⟩ := hrun.wellNamed.enums.exists_ofIdentifier (List.mem_map_of_mem he)
    have hmem := hrun.mem_tree_iff.mpr
      (.enumeration (hrun.wellNamed.mem_namedEnums.mpr ⟨he, hn⟩))
    have hmem' := hrun'.mem_tree_iff.mpr
      (.enumeration (hrun'.wellNamed.mem_namedEnums.mpr ⟨he', hn⟩))
    exact ⟨n, hn, _, rfl, hrun.filesAt_path hmem, hrun'.filesAt_path hmem'⟩

/-- The small schema with another model changed and more declared around it. -/
def grownDatamodel : Datamodel where
  enums := [⟨"colour", ["RED"], none, none⟩] ++ smallDatamodel.enums
  models := [
    .plain "tag" [(Field.plain "id" (.scalar .string)).asId],
    .plain "blog.post" [
      (Field.plain "id" (.scalar .int)).asId,
      Field.plain "tone" (.enumeration "colour"),
      Field.plain "author" (.relation ⟨"/User", "UserPosts", [], []⟩)]] ++
    smallDatamodel.models.take 1

theorem exists_generate_grownDatamodel :
    ∃ out, generate (.ofDatamodel grownDatamodel) .standard (fun _ => none) ⟨"/work"⟩ = .ok out :=
  exists_ok_of_isOk (by decide +kernel)

theorem generate_shared_declarations_grownDatamodel :
    ∃ out out', ∃ m ∈ smallDatamodel.models, m ∈ grownDatamodel.models ∧
      generate (.ofDatamodel smallDatamodel) .standard (fun _ => none) ⟨"/work"⟩ = .ok out ∧
      generate (.ofDatamodel grownDatamodel) .standard (fun _ => none) ⟨"/work"⟩ = .ok out' ∧
      ∃ n, Name.ofIdentifier m.name = .ok n ∧
        out.filesIn n.camel = out'.filesIn n.camel ∧
        (out.filesIn n.camel).map (fun f => (f.path, f.role)) =
          (NamedModel.mk m n).manifest true := by
  obtain ⟨out, hout⟩ := exists_generate_smallDatamodel
  obtain ⟨out', hout'⟩ := exists_generate_grownDatamodel
  obtain ⟨paths, hpaths⟩ : ∃ paths, ClientPaths.resolve (.ofDatamodel smallDatamodel)
      (fun _ => none) ⟨"/work"⟩ = .ok paths := exists_ok_of_isOk (by decide +kernel)
  have hshared := generate_shared_declarations hout hout' hpaths hpaths rfl
  refine ⟨out, out', _, List.mem_cons_self, by simp [grownDatamodel, smallDatamodel], hout, hout',
    hshared.1 _ List.mem_cons_self (by simp [grownDatamodel, smallDatamodel, Options.ofDatamodel])⟩

end Scaffold
