import Scaffold.Proofs.References
import Scaffold.Proofs.Locality
import Scaffold.Summary

/-!
# What a run hands over, file by file

Which files a run hands over can be told from the declarations without generating anything:
`manifestOf` lists their places and roles, from the names of the enums and models and the one
switch that decides about index files. A run hands over exactly these files in exactly this
order.

Everything that is said about numbers of files is counting in that list. The summary keeps a
number for each role and one for all files together, and since a file has one role, the
numbers for the roles add up to the number of all.

The last file of the list is the index of the enums. It passes modules on as lines of text,
each of them once and in ascending order, and no line is lost that way because no two enums
share a Pascal form.
-/

namespace Scaffold

open Artifact (Role)
open Document (Environment Options)
open Naming (Name)
open Schema

/-- The path and role of the file of an enum. -/
def enumEntry (n : Name) : Path × Role :=
  (⟨enumDirectory ++ "/" ++ n.pascal ++ ".ts"⟩, .enumeration)

/-- The path and role of the index of the enums. -/
def enumIndexEntry : Path × Role :=
  (⟨enumDirectory ++ "/index.ts"⟩, .index)

/-- The paths and roles of the files that enums and models ask for. -/
def manifestOf (withIndex : Bool) (enums : List Name) (models : List NamedModel) :
    List (Path × Role) :=
  enums.map enumEntry ++ models.flatMap (NamedModel.manifest · withIndex) ++
    if withIndex && !enums.isEmpty then [enumIndexEntry] else []

/-- The number of files of a role that so many enums and models ask for. -/
def fileCount (withIndex : Bool) (enums models : Nat) : Role → Nat
  | .enumeration => enums
  | .entity | .createDto | .service => models
  | .index => if withIndex then models + (if enums = 0 then 0 else 1) else 0

/-- The paths and roles of the files of an output. -/
def Output.manifest (o : Output) : List (Path × Role) :=
  o.files.map fun f => (f.path, f.role)

namespace Artifact

variable {c : Context}

theorem map_toFile_flatten {models : List NamedModel} {modelFiles : List (List Artifact)}
    (h : List.Forall₂ (fun m files => ofModel c m = .ok files) models modelFiles) :
    (modelFiles.flatten.map toFile).map (fun f => (f.path, f.role)) =
      models.flatMap (NamedModel.manifest · c.config.makeIndexFile) := by
  induction h with
  | nil => rfl
  | cons hfirst _ ih =>
      rw [List.flatten_cons, List.map_append, List.map_append, List.flatMap_cons,
        map_toFile_ofModel hfirst, ih]

/-- The files of a tree are those that its names ask for, in order. -/
theorem map_toFile_project {tree : List Artifact} (h : c.WellNamed)
    (htree : project c = .ok tree) :
    (tree.map toFile).map (fun f => (f.path, f.role)) =
      manifestOf c.config.makeIndexFile c.enumNames c.namedModels := by
  obtain ⟨modelFiles, hfiles, rfl⟩ := (project_eq_ok h).mp htree
  have henums : ((c.namedEnums.map fun entry => ofEnum entry.1 entry.2).map toFile).map
      (fun f => (f.path, f.role)) = c.enumNames.map enumEntry := by
    rw [← h.map_snd_namedEnums, List.map_map, List.map_map, List.map_map]
    rfl
  have hempty : c.datamodel.enums.isEmpty = List.isEmpty c.enumNames := by
    rw [Bool.eq_iff_iff, List.isEmpty_iff_length_eq_zero, List.isEmpty_iff_length_eq_zero,
      h.length_enumNames]
  have hindex : ((if c.config.makeIndexFile && !c.datamodel.enums.isEmpty then
        [enumIndexOf c.enumNames] else []).map toFile).map (fun f => (f.path, f.role)) =
      if c.config.makeIndexFile && !List.isEmpty c.enumNames then [enumIndexEntry] else [] := by
    rw [hempty]
    split
    · rfl
    · rfl
  rw [manifestOf, List.map_append, List.map_append, List.map_append, List.map_append, henums,
    map_toFile_flatten (mapM_eq_ok_iff.mp hfiles), hindex]

end Artifact

theorem countP_manifest (m : NamedModel) (withIndex : Bool) (role : Role) :
    (m.manifest withIndex).countP (fun entry => entry.2 = role) = fileCount withIndex 0 1 role := by
  cases role <;> cases withIndex <;> rfl

theorem countP_manifestOf (withIndex : Bool) (enums : List Name) (models : List NamedModel)
    (role : Role) :
    (manifestOf withIndex enums models).countP (fun entry => entry.2 = role) =
      fileCount withIndex enums.length models.length role := by
  have henums : (enums.map enumEntry).countP (fun entry => entry.2 = role) =
      if role = .enumeration then enums.length else 0 := by
    cases role <;> simp [enumEntry, List.countP_map, Function.comp_def]
  have hmodels : (models.flatMap (NamedModel.manifest · withIndex)).countP
      (fun entry => entry.2 = role) = models.length * fileCount withIndex 0 1 role := by
    simp [List.countP_flatMap, Function.comp_def, countP_manifest]
  rw [manifestOf, List.countP_append, List.countP_append, henums, hmodels]
  cases role <;> cases withIndex <;> cases enums <;> simp [fileCount, enumIndexEntry]

/-- Every file has one role. -/
theorem Output.length_files (o : Output) :
    o.files.length = (o.filesOf .enumeration).length + (o.filesOf .entity).length +
      (o.filesOf .createDto).length + (o.filesOf .service).length + (o.filesOf .index).length := by
  simp only [filesOf]
  induction o.files with
  | nil => rfl
  | cons f files ih =>
      cases hrole : f.role <;> simp [hrole] <;> omega

theorem Output.length_filesOf (o : Output) (role : Role) :
    (o.filesOf role).length = o.manifest.countP fun entry => entry.2 = role := by
  rw [filesOf, manifest, List.countP_map, List.countP_eq_length_filter]
  rfl

/-- A summary whose numbers are those of the declarations of a data model. -/
structure Summary.Counts (s : Summary) (d : Datamodel) (withIndex : Bool) : Prop where
  enumFiles : s.enumFiles = d.enums.length
  entityFiles : s.entityFiles = d.models.length
  dtoFiles : s.dtoFiles = d.models.length
  serviceFiles : s.serviceFiles = d.models.length
  indexFiles : s.indexFiles =
    if withIndex then d.models.length + (if d.enums.length = 0 then 0 else 1) else 0
  totalFiles : s.totalFiles =
    s.enumFiles + s.entityFiles + s.dtoFiles + s.serviceFiles + s.indexFiles

theorem counts_ofOutput {out : Output} {d : Datamodel} {config : Config} {withIndex : Bool}
    {enums : List Name} {models : List NamedModel}
    (hmanifest : out.manifest = manifestOf withIndex enums models)
    (henums : enums.length = d.enums.length) (hmodels : models.length = d.models.length) :
    (Summary.ofOutput out config).Counts d withIndex := by
  have hcount : ∀ role, (out.filesOf role).length =
      fileCount withIndex d.enums.length d.models.length role := by
    intro role
    rw [Output.length_filesOf, hmanifest, countP_manifestOf, henums, hmodels]
  exact ⟨hcount .enumeration, hcount .entity, hcount .createDto, hcount .service, hcount .index,
    out.length_files⟩

/-- The line by which an index passes on what a module exports. -/
def exportLine (module : String) : String :=
  "export * from \"./" ++ module ++ "\";\n"

/-- A file that passes on each of some files exactly once: its lines below the banner export
from modules that lead, seen from the file, to these files. -/
def GeneratedFile.PassesOn (index : GeneratedFile) (files : List GeneratedFile) : Prop :=
  ∃ modules : List String,
    index.content = banner ++ "\n\n" ++ String.join (modules.map exportLine) ∧
    (modules.map fun module => index.path.moduleFile ("./" ++ module)).Perm
      (files.map fun f => f.path.components) ∧
    (files.map fun f => f.path.components).Nodup

theorem filter_manifestOf (withIndex : Bool) (enums : List Name) (models : List NamedModel) :
    (manifestOf withIndex enums models).filter (fun entry => entry.2 = .enumeration) =
      enums.map enumEntry := by
  have hmodel : ∀ m : NamedModel,
      (m.manifest withIndex).filter (fun entry => entry.2 = Role.enumeration) = [] := by
    intro m
    cases withIndex with
    | true => rfl
    | false => rfl
  have hindex : (if withIndex && !enums.isEmpty then [enumIndexEntry] else []).filter
      (fun entry => entry.2 = Role.enumeration) = [] := by
    split
    · rfl
    · rfl
  rw [manifestOf, List.filter_append, List.filter_append, hindex, List.filter_flatMap,
    List.filter_eq_self.mpr]
  · simp [hmodel]
  · simp [enumEntry]

namespace Generates

variable {options : Options} {config : Config} {env : Environment} {workingDirectory : Path}
  {c : Context} {tree : List Artifact} {out : Output}

theorem manifest_eq (h : Generates options config env workingDirectory c tree out) :
    out.manifest = manifestOf config.makeIndexFile c.enumNames c.namedModels := by
  rw [Output.manifest, h.files, ← h.config_eq]
  exact Artifact.map_toFile_project h.wellNamed h.project

theorem components_filesOf_enumeration
    (h : Generates options config env workingDirectory c tree out) :
    ((out.filesOf .enumeration).map fun f => f.path.components) =
      c.enumNames.map fun n => n.enumPlace.map Component.name := by
  have hfilter : (out.filesOf .enumeration).map (fun f => (f.path, f.role)) =
      c.enumNames.map enumEntry := by
    rw [← filter_manifestOf config.makeIndexFile c.enumNames c.namedModels, ← h.manifest_eq,
      Output.manifest, List.filter_map]
    rfl
  have hpaths : ((out.filesOf .enumeration).map fun f => f.path.components) =
      ((out.filesOf .enumeration).map fun f => (f.path, f.role)).map
        fun entry => entry.1.components := by
    rw [List.map_map]
    rfl
  rw [hpaths, hfilter, List.map_map, ← h.wellNamed.map_snd_namedEnums, List.map_map, List.map_map]
  refine List.map_congr_left fun entry hentry => ?_
  exact Artifact.components_ofEnum entry.1
    (h.wellNamed.wellSpelled_enum (List.of_mem_zip hentry).2)

/-- With index files, the last file of a tree with an enum is the index of the enums. -/
theorem exists_enumIndex (h : Generates options config env workingDirectory c tree out)
    (hindex : config.makeIndexFile = true) (hsome : options.datamodel.enums ≠ []) :
    ∃ earlier, out.files = earlier ++ [(Artifact.enumIndexOf c.enumNames).toFile] := by
  obtain ⟨modelFiles, -, htree⟩ := (Artifact.project_eq_ok h.wellNamed).mp h.project
  have hasks : (c.config.makeIndexFile && !c.datamodel.enums.isEmpty) = true := by
    rw [h.config_eq, hindex, h.datamodel_eq, List.isEmpty_eq_false_iff.mpr hsome]
    rfl
  rw [if_pos hasks] at htree
  rw [h.files, ← htree, List.map_append]
  exact ⟨_, rfl⟩

theorem passesOn_enumIndexOf (h : Generates options config env workingDirectory c tree out) :
    (Artifact.enumIndexOf c.enumNames).toFile.PassesOn (out.filesOf .enumeration) := by
  refine ⟨Text.ascending (c.enumNames.map Name.pascal), rfl, ?_, ?_⟩
  · have hdistinct : (c.enumNames.map Name.pascal).Nodup := by
      rw [List.nodup_iff_pairwise_ne, List.pairwise_map]
      exact h.wellNamed.enums.apart.imp fun hab => hab.pascal
    -- Sorting loses nothing, because nothing occurs twice.
    have hsorted : (Text.ascending (c.enumNames.map Name.pascal)).Perm
        (c.enumNames.map Name.pascal) :=
      (List.perm_ext_iff_of_nodup (Text.nodup_ascending _) hdistinct).mpr
        fun _ => Text.mem_ascending
    refine (hsorted.map _).trans ?_
    rw [h.components_filesOf_enumeration, List.map_map]
    refine List.Perm.of_eq (List.map_congr_left fun n hn => ?_)
    exact @Artifact.moduleFile_enumIndex c.enumNames n (h.wellNamed.wellSpelled_enum hn)
  · have hnodup : (out.files.map fun f => f.path.components).Nodup :=
      List.nodup_iff_pairwise_ne.mpr (h.pairwise_components.imp SideBySide.ne)
    exact hnodup.sublist (List.filter_sublist.map _)

theorem mapM_ofIdentifier_enums (h : Generates options config env workingDirectory c tree out) :
    options.datamodel.enums.mapM (fun e => Name.ofIdentifier e.name) = .ok c.enumNames := by
  rw [mapM_eq_ok_iff, ← h.datamodel_eq]
  exact List.forall₂_map_left_iff.mp h.wellNamed.enums.spelled

theorem mapM_ofIdentifier_models (h : Generates options config env workingDirectory c tree out) :
    options.datamodel.models.mapM (fun m => (Name.ofIdentifier m.name).map (NamedModel.mk m)) =
      .ok c.namedModels := by
  rw [← h.datamodel_eq]
  refine mapM_eq_ok_zip ((List.forall₂_map_left_iff.mp h.wellNamed.models.spelled).imp ?_)
  intro m n hn
  rw [hn]
  rfl

end Generates

/-- A run hands over exactly the files that the declarations of the document ask for, in the
order of the manifest. The summary counts them, and the index of the enums, which comes last,
passes each file of an enum on exactly once. -/
theorem generate_manifest {options : Options} {config : Config} {env : Environment}
    {workingDirectory : Path} {out : Output}
    (h : generate options config env workingDirectory = .ok out) :
    (∃ enums models,
      options.datamodel.enums.mapM (fun e => Name.ofIdentifier e.name) = .ok enums ∧
      options.datamodel.models.mapM (fun m => (Name.ofIdentifier m.name).map (NamedModel.mk m)) =
        .ok models ∧
      out.manifest = manifestOf config.makeIndexFile enums models) ∧
    (Summary.ofOutput out config).Counts options.datamodel config.makeIndexFile ∧
    (config.makeIndexFile = true → options.datamodel.enums ≠ [] →
      ∃ earlier index, out.files = earlier ++ [index] ∧ (index.path, index.role) = enumIndexEntry ∧
        index.PassesOn (out.filesOf .enumeration)) := by
  obtain ⟨c, tree, hrun⟩ := exists_generates h
  have hmodels : c.namedModels.length = options.datamodel.models.length := by
    rw [← hrun.datamodel_eq, ← hrun.wellNamed.map_model, List.length_map]
  have henums : c.enumNames.length = options.datamodel.enums.length := by
    rw [hrun.wellNamed.length_enumNames, hrun.datamodel_eq]
  refine ⟨⟨c.enumNames, c.namedModels, hrun.mapM_ofIdentifier_enums,
    hrun.mapM_ofIdentifier_models, hrun.manifest_eq⟩,
    counts_ofOutput hrun.manifest_eq henums hmodels, ?_⟩
  intro hindex hsome
  obtain ⟨earlier, hfiles⟩ := hrun.exists_enumIndex hindex hsome
  exact ⟨earlier, _, hfiles, rfl, hrun.passesOn_enumIndexOf⟩

theorem generate_manifest_grownDatamodel :
    ∃ out, generate (.ofDatamodel grownDatamodel) .standard (fun _ => none) ⟨"/work"⟩ = .ok out ∧
      (∃ enums models, grownDatamodel.enums.mapM (fun e => Name.ofIdentifier e.name) = .ok enums ∧
        grownDatamodel.models.mapM (fun m => (Name.ofIdentifier m.name).map (NamedModel.mk m)) =
          .ok models ∧
        out.manifest = manifestOf true enums models) ∧
      (Summary.ofOutput out .standard).enumFiles = 2 ∧
      (Summary.ofOutput out .standard).indexFiles = 4 ∧
      (Summary.ofOutput out .standard).totalFiles = 15 ∧
      ∃ earlier index, out.files = earlier ++ [index] ∧ (index.path, index.role) = enumIndexEntry ∧
        index.PassesOn (out.filesOf .enumeration) := by
  obtain ⟨out, hout⟩ := exists_generate_grownDatamodel
  obtain ⟨hmanifest, hcounts, hindex⟩ := generate_manifest hout
  refine ⟨out, hout, hmanifest, hcounts.enumFiles, hcounts.indexFiles, ?_, ?_⟩
  · rw [hcounts.totalFiles, hcounts.enumFiles, hcounts.entityFiles, hcounts.dtoFiles,
      hcounts.serviceFiles, hcounts.indexFiles]
    rfl
  · exact hindex rfl (by simp [Options.ofDatamodel, grownDatamodel])

end Scaffold
