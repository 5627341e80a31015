import Scaffold.Output
import Scaffold.Proofs.Names

/-!
# The tree of a run

`generate` hands over texts. What a text was made from is an artifact, and this file
goes back from the one to the other: a run that succeeded has a context and a list
of artifacts, and its files are the texts of these artifacts in order.

In a context whose names are spelled no look-up fails, so the list can be written
down: the files of the enums, then those of each model, then the index of the enums.
`Artifact.OfContext` says the same about a single artifact, with one constructor for
each kind of file, and `mem_project_iff` makes it the case split by which every
later file reasons about an arbitrary member of the tree.
-/

namespace Scaffold

open Artifact (CreateDto Entity Service)
open Document (Environment Options)
open Naming (Name)
open Schema

namespace Context

/-- The models of a context, each with its spellings. -/
def namedModels (c : Context) : List NamedModel :=
  (c.datamodel.models.zip c.modelNames).map fun entry => ⟨entry.1, entry.2⟩

/-- The enums of a context, each with its spellings. -/
def namedEnums (c : Context) : List (Enumeration × Name) :=
  c.datamodel.enums.zip c.enumNames

namespace WellNamed

variable {c : Context}

theorem mapM_enumName (h : c.WellNamed) :
    c.datamodel.enums.mapM (Artifact.enumName c) = .ok c.enumNames := by
  refine mapM_eq_ok_iff.mpr ((List.forall₂_map_left_iff.mp h.enums.forall₂_find?).imp ?_)
  intro e n hfind
  rw [Artifact.enumName, hfind]

theorem mapM_ofModel (h : c.WellNamed) :
    c.datamodel.models.mapM (NamedModel.ofModel c) = .ok c.namedModels := by
  refine mapM_eq_ok_zip ((List.forall₂_map_left_iff.mp h.models.forall₂_find?).imp ?_)
  intro m n hfind
  rw [NamedModel.ofModel, hfind]

theorem length_modelNames (h : c.WellNamed) :
    c.modelNames.length = c.datamodel.models.length := by
  simpa using h.models.spelled.length_eq.symm

theorem length_enumNames (h : c.WellNamed) :
    c.enumNames.length = c.datamodel.enums.length := by
  simpa using h.enums.spelled.length_eq.symm

theorem map_names (h : c.WellNamed) : c.namedModels.map NamedModel.names = c.modelNames := by
  rw [namedModels, List.map_map]
  exact List.map_snd_zip (Nat.le_of_eq h.length_modelNames)

theorem map_model (h : c.WellNamed) :
    c.namedModels.map NamedModel.model = c.datamodel.models := by
  rw [namedModels, List.map_map]
  exact List.map_fst_zip (Nat.le_of_eq h.length_modelNames.symm)

theorem map_snd_namedEnums (h : c.WellNamed) : c.namedEnums.map Prod.snd = c.enumNames :=
  List.map_snd_zip (Nat.le_of_eq h.length_enumNames)

theorem names_mem (h : c.WellNamed) {m : NamedModel} (hm : m ∈ c.namedModels) :
    m.names ∈ c.modelNames := by
  rw [← h.map_names]
  exact List.mem_map_of_mem hm

theorem model_mem (h : c.WellNamed) {m : NamedModel} (hm : m ∈ c.namedModels) :
    m.model ∈ c.datamodel.models := by
  rw [← h.map_model]
  exact List.mem_map_of_mem hm

theorem exists_namedModel (h : c.WellNamed) {n : Name} (hn : n ∈ c.modelNames) :
    ∃ m ∈ c.namedModels, m.names = n := by
  rw [← h.map_names] at hn
  exact List.mem_map.mp hn

end WellNamed

end Context

namespace Artifact

theorem enums_eq {c : Context} (h : c.WellNamed) :
    enums c = .ok (c.namedEnums.map fun entry => ofEnum entry.1 entry.2) := by
  refine mapM_eq_ok_zip ((mapM_eq_ok_iff.mp h.mapM_enumName).imp ?_)
  intro e n hname
  rw [hname]
  rfl

/-- The index of the enums, made from their names. -/
def enumIndexOf (names : NameTable) : Artifact :=
  ⟨⟨enumDirectory ++ "/index.ts"⟩, .index ⟨names.map Name.pascal⟩⟩

theorem enumIndex_eq {c : Context} (h : c.WellNamed) :
    enumIndex c = .ok (enumIndexOf c.enumNames) := by
  rw [enumIndex, h.mapM_enumName]
  rfl

theorem ofModel_eq_ok {c : Context} {m : NamedModel} {files : List Artifact} :
    ofModel c m = .ok files ↔
      ∃ e, Entity.ofModel c m = .ok e ∧ ∃ d, CreateDto.ofModel c m = .ok d ∧
        ∃ s, Service.ofModel c m = .ok s ∧
          [⟨m.entityPath, .entity e⟩, ⟨m.dtoPath, .createDto d⟩, ⟨m.servicePath, .service s⟩] ++
            (if c.config.makeIndexFile then [modelIndex m] else []) = files := by
  simp only [ofModel, entity, createDto, service, bind_eq_ok, map_eq_ok, pure_eq_ok,
    exists_exists_and_eq_and]

theorem project_eq_ok {c : Context} {tree : List Artifact} (h : c.WellNamed) :
    project c = .ok tree ↔
      ∃ modelFiles, c.namedModels.mapM (ofModel c) = .ok modelFiles ∧
        (c.namedEnums.map fun entry => ofEnum entry.1 entry.2) ++ modelFiles.flatten ++
          (if c.config.makeIndexFile && !c.datamodel.enums.isEmpty then
            [enumIndexOf c.enumNames] else []) = tree := by
  simp only [project, enums_eq h, h.mapM_ofModel, bind_eq_ok, Except.ok.injEq,
    exists_eq_left']
  refine exists_congr fun modelFiles => and_congr_right fun _ => ?_
  split
  · simp only [enumIndex_eq h, bind_eq_ok, Except.ok.injEq, exists_eq_left', pure_eq_ok]
  · rw [pure_eq_ok, List.append_nil]

theorem exists_ofModel {c : Context} {tree : List Artifact} (h : c.WellNamed)
    (htree : project c = .ok tree) {m : NamedModel} (hm : m ∈ c.namedModels) :
    ∃ files, ofModel c m = .ok files := by
  obtain ⟨modelFiles, hmodels, -⟩ := (project_eq_ok h).mp htree
  exact exists_ok_of_mapM_eq_ok hmodels m hm

/-- An artifact that belongs to the tree of a context. -/
inductive OfContext (c : Context) : Artifact → Prop
  | enumeration {e : Enumeration} {n : Name} (hmem : (e, n) ∈ c.namedEnums) :
      OfContext c (ofEnum e n)
  | entity {m : NamedModel} {e : Entity} (hm : m ∈ c.namedModels)
      (he : Entity.ofModel c m = .ok e) : OfContext c ⟨m.entityPath, .entity e⟩
  | createDto {m : NamedModel} {d : CreateDto} (hm : m ∈ c.namedModels)
      (hd : CreateDto.ofModel c m = .ok d) : OfContext c ⟨m.dtoPath, .createDto d⟩
  | service {m : NamedModel} {s : Service} (hm : m ∈ c.namedModels)
      (hs : Service.ofModel c m = .ok s) : OfContext c ⟨m.servicePath, .service s⟩
  | modelIndex {m : NamedModel} (hm : m ∈ c.namedModels)
      (hindex : c.config.makeIndexFile = true) : OfContext c (modelIndex m)
  | enumIndex (hindex : c.config.makeIndexFile = true) (hsome : c.datamodel.enums ≠ []) :
      OfContext c (enumIndexOf c.enumNames)

/-- The files of one model, by what each of them was made from. -/
theorem mem_ofModel_iff {c : Context} {m : NamedModel} {files : List Artifact}
    (hfiles : ofModel c m = .ok files) {a : Artifact} :
    a ∈ files ↔
      (∃ e, Entity.ofModel c m = .ok e ∧ a = ⟨m.entityPath, .entity e⟩) ∨
      (∃ d, CreateDto.ofModel c m = .ok d ∧ a = ⟨m.dtoPath, .createDto d⟩) ∨
      (∃ s, Service.ofModel c m = .ok s ∧ a = ⟨m.servicePath, .service s⟩) ∨
      (c.config.makeIndexFile = true ∧ a = modelIndex m) := by
  obtain ⟨e, he, d, hd, s, hs, rfl⟩ := ofModel_eq_ok.mp hfiles
  have hindex : a ∈ (if c.config.makeIndexFile then [modelIndex m] else []) ↔
      c.config.makeIndexFile = true ∧ a = modelIndex m := by
    split
    · next h => simp [h]
    · next h => simp [h]
  rw [List.mem_append, hindex]
  simp only [he, hd, hs, Except.ok.injEq, exists_eq_left', List.mem_cons, List.not_mem_nil,
    or_false, or_assoc]

theorem mem_project_iff {c : Context} {tree : List Artifact} (h : c.WellNamed)
    (htree : project c = .ok tree) {a : Artifact} : a ∈ tree ↔ OfContext c a := by
  obtain ⟨modelFiles, hmodels, rfl⟩ := (project_eq_ok h).mp htree
  rw [List.mem_append, List.mem_append]
  constructor
  · rintro ((ha | ha) | ha)
    · obtain ⟨⟨e, n⟩, hmem, rfl⟩ := List.mem_map.mp ha
      exact .enumeration hmem
    · obtain ⟨files, hfiles, ha⟩ := List.mem_flatten.mp ha
      obtain ⟨m, hm, hfiles⟩ := (mem_of_mapM_eq_ok hmodels).mp hfiles
      rcases (mem_ofModel_iff hfiles).mp ha with ⟨e, he, rfl⟩ | ⟨d, hd, rfl⟩ | ⟨s, hs, rfl⟩ |
        ⟨hindex, rfl⟩
      · exact .entity hm he
      · exact .createDto hm hd
      · exact .service hm hs
      · exact .modelIndex hm hindex
    · split at ha
      · next hindex =>
          rw [Bool.and_eq_true] at hindex
          rw [List.mem_singleton.mp ha]
          exact .enumIndex hindex.1 (by simpa using hindex.2)
      · cases ha
  · -- Every model has files, because the tree as a whole was made.
    have hmem : ∀ {m : NamedModel}, m ∈ c.namedModels →
        (∀ {files}, ofModel c m = .ok files → a ∈ files) → a ∈ modelFiles.flatten := by
      intro m hm hall
      obtain ⟨files, hfiles⟩ := exists_ok_of_mapM_eq_ok hmodels m hm
      exact List.mem_flatten.mpr
        ⟨files, (mem_of_mapM_eq_ok hmodels).mpr ⟨m, hm, hfiles⟩, hall hfiles⟩
    intro ha
    cases ha with
    | @enumeration e n hentry => exact .inl (.inl (List.mem_map.mpr ⟨(e, n), hentry, rfl⟩))
    | @entity m e hm he =>
        exact .inl (.inr (hmem hm fun hf => (mem_ofModel_iff hf).mpr (.inl ⟨e, he, rfl⟩)))
    | @createDto m d hm hd =>
        exact .inl (.inr (hmem hm fun hf =>
          (mem_ofModel_iff hf).mpr (.inr (.inl ⟨d, hd, rfl⟩))))
    | @service m s hm hs =>
        exact .inl (.inr (hmem hm fun hf =>
          (mem_ofModel_iff hf).mpr (.inr (.inr (.inl ⟨s, hs, rfl⟩)))))
    | modelIndex hm hindex =>
        exact .inl (.inr (hmem hm fun hf =>
          (mem_ofModel_iff hf).mpr (.inr (.inr (.inr ⟨hindex, rfl⟩)))))
    | enumIndex hindex hsome =>
        refine .inr ?_
        simp [hindex, hsome]

end Artifact

theorem generate_eq_ok {options : Options} {config : Config} {env : Environment}
    {workingDirectory : Path} {out : Output} :
    generate options config env workingDirectory = .ok out ↔
      options.datamodel.validate = .ok () ∧
        ∃ c, Context.ofOptions options config env workingDirectory = .ok c ∧
          ∃ tree, Artifact.project c = .ok tree ∧
            ∃ warnings, warningsOf options.datamodel = .ok warnings ∧
              ⟨tree.map fun a => (GeneratedFile.ofArtifact a).withBanner, warnings⟩ = out := by
  simp only [generate, bind_eq_ok, pure_eq_ok]
  exact ⟨fun ⟨_, h⟩ => h, fun h => ⟨(), h⟩⟩

/-- An artifact as the file that a run hands over: the banner, a blank line, and the text. -/
def Artifact.toFile (a : Artifact) : GeneratedFile :=
  ⟨a.path, banner ++ "\n\n" ++ a.body.text, a.body.role⟩

theorem Artifact.toFile_path (a : Artifact) : a.toFile.path = a.path :=
  rfl

theorem Artifact.toFile_role (a : Artifact) : a.toFile.role = a.body.role :=
  rfl

/-- A run with the context and the tree behind its files. -/
structure Generates (options : Options) (config : Config) (env : Environment)
    (workingDirectory : Path) (c : Context) (tree : List Artifact) (out : Output) : Prop where
  valid : options.datamodel.validate = .ok ()
  context : Context.ofOptions options config env workingDirectory = .ok c
  project : Artifact.project c = .ok tree
  files : out.files = tree.map Artifact.toFile

theorem exists_generates {options : Options} {config : Config} {env : Environment}
    {workingDirectory : Path} {out : Output}
    (h : generate options config env workingDirectory = .ok out) :
    ∃ c tree, Generates options config env workingDirectory c tree out := by
  obtain ⟨hvalid, c, hc, tree, htree, warnings, -, rfl⟩ := generate_eq_ok.mp h
  exact ⟨c, tree, hvalid, hc, htree, rfl⟩

namespace Generates

variable {options : Options} {config : Config} {env : Environment} {workingDirectory : Path}
  {c : Context} {tree : List Artifact} {out : Output}

theorem wellNamed (h : Generates options config env workingDirectory c tree out) :
    c.WellNamed :=
  (Context.ofOptions_spec h.context).2.2.1

theorem mem_tree_iff (h : Generates options config env workingDirectory c tree out)
    {a : Artifact} : a ∈ tree ↔ Artifact.OfContext c a :=
  Artifact.mem_project_iff h.wellNamed h.project

/-- Whether a tree has some file can be computed from the document. -/
theorem exists_of_any (h : Generates options config env workingDirectory c tree out)
    {p : Artifact → Bool}
    (hany : ((Context.ofOptions options config env workingDirectory).bind fun c =>
      (Artifact.project c).map fun tree => tree.any p).toOption = some true) :
    ∃ a ∈ tree, p a = true := by
  rw [h.context] at hany
  simpa only [Except.bind, h.project, Except.map, Except.toOption, Option.some.injEq,
    List.any_eq_true] using hany

end Generates

/-! ## A small schema

Names with separators of all kinds, an enum, a relation seen from both sides, a field
that needs the client, and a model without a key. -/

def smallDatamodel : Datamodel where
  enums := [⟨"../user role", ["ADMIN", "MEMBER"], none, none⟩]
  models := [
    .plain "/User" [
      (Field.plain "id" (.scalar .int)).asId,
      Field.plain "role" (.enumeration "../user role"),
      (Field.plain "posts" (.relation ⟨"blog.post", "UserPosts", [], []⟩)).asList],
    .plain "blog.post" [
      Field.plain "authorId" (.scalar .int),
      (Field.plain "meta" (.scalar .json)).asOptional,
      Field.plain "author" (.relation ⟨"/User", "UserPosts", ["authorId"], ["id"]⟩)]]

theorem exists_generate_smallDatamodel :
    ∃ out, generate (.ofDatamodel smallDatamodel) .standard (fun _ => none) ⟨"/work"⟩ = .ok out :=
  exists_ok_of_isOk (by decide +kernel)

end Scaffold
