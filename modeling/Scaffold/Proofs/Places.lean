import Mathlib.Data.List.Nodup
import Scaffold.Proofs.Paths
import Scaffold.Proofs.Tree

/-!
# Where generated files go

Every file of a tree has a place, a list of two or three names below the output
directory, and a place depends on the spellings of one declaration only. Names are
letters and digits with fixed words around them, so each is a name in a path as
well, and the path of a file leads down and nowhere else.

That no two places collide has three reasons, one for each level. The directories
of two models differ because their camel forms do, and differ from the directory of
the enums because a context refuses a model that would take it. Two enums have
different Pascal forms. Inside the directory of one model the names are told apart
by how they end. The same comparison shows that no file is called like a directory:
`dtos` is the only directory inside another one, and no file is.
-/

namespace Scaffold

open Document (Environment Options)
open Naming (Name)
open Scaffold.Path (IsPlainName)
open Schema
open Text (append_ne_append ending_append ne_of_ending_ne)

namespace Naming.Name

def enumPlace (n : Name) : List String := [enumDirectory, n.pascal ++ ".ts"]

def entityPlace (n : Name) : List String := [n.camel, n.pascal ++ "Base.ts"]

def dtoPlace (n : Name) : List String := [n.camel, "dtos", "Create-" ++ n.pascal ++ ".dto.ts"]

def servicePlace (n : Name) : List String := [n.camel, n.camel ++ "Base.service.ts"]

def indexPlace (n : Name) : List String := [n.camel, "index.ts"]

/-- The places of the files of a model. -/
def modelPlaces (withIndex : Bool) (n : Name) : List (List String) :=
  [n.entityPlace, n.dtoPlace, n.servicePlace] ++ if withIndex then [n.indexPlace] else []

theorem eq_of_mem_modelPlaces {n : Name} {withIndex : Bool} {p : List String}
    (hp : p ∈ n.modelPlaces withIndex) :
    p = n.entityPlace ∨ p = n.dtoPlace ∨ p = n.servicePlace ∨ p = n.indexPlace := by
  rw [modelPlaces] at hp
  cases withIndex with
  | true => simpa using hp
  | false =>
      simp only [Bool.false_eq_true, if_false, List.append_nil, List.mem_cons,
        List.not_mem_nil, or_false] at hp
      rcases hp with hp | hp | hp
      · exact .inl hp
      · exact .inr (.inl hp)
      · exact .inr (.inr (.inl hp))

theorem entityPlace_mem (n : Name) : n.entityPlace ∈ n.modelPlaces true := by
  simp [modelPlaces]

theorem dtoPlace_mem (n : Name) : n.dtoPlace ∈ n.modelPlaces true := by
  simp [modelPlaces]

theorem servicePlace_mem (n : Name) : n.servicePlace ∈ n.modelPlaces true := by
  simp [modelPlaces]

theorem indexPlace_mem (n : Name) : n.indexPlace ∈ n.modelPlaces true := by
  simp [modelPlaces]

end Naming.Name

/-- The place of the index of the enums. -/
def enumIndexPlace : List String := [enumDirectory, "index.ts"]

/-- The places of all files of a context, in order. -/
def Context.places (c : Context) : List (List String) :=
  c.enumNames.map Name.enumPlace ++
    c.modelNames.flatMap (Name.modelPlaces c.config.makeIndexFile) ++
    if c.config.makeIndexFile && !c.datamodel.enums.isEmpty then [enumIndexPlace] else []

namespace Artifact

theorem ofEnum_path (e : Enumeration) (n : Name) :
    (ofEnum e n).path = Path.ofNames n.enumPlace := by
  simp [ofEnum, Path.ofNames, Name.enumPlace, String.intercalate_cons_cons, String.append_assoc]

theorem enumIndexOf_path (names : NameTable) :
    (enumIndexOf names).path = Path.ofNames enumIndexPlace := by
  rw [enumIndexOf, Path.mk.injEq]
  decide

end Artifact

namespace NamedModel

theorem entityPath_eq (m : NamedModel) : m.entityPath = Path.ofNames m.names.entityPlace := by
  simp [entityPath, directory, entityModule, entityClass, Path.ofNames, Name.entityPlace,
    String.intercalate_cons_cons, String.append_assoc]

theorem dtoPath_eq (m : NamedModel) : m.dtoPath = Path.ofNames m.names.dtoPlace := by
  rw [dtoPath, Path.ofNames, Path.mk.injEq, ← String.toList_inj]
  simp [directory, dtoModule, Name.dtoPlace, String.intercalate_cons_cons]

theorem servicePath_eq (m : NamedModel) : m.servicePath = Path.ofNames m.names.servicePlace := by
  simp [servicePath, directory, serviceModule, Path.ofNames, Name.servicePlace,
    String.intercalate_cons_cons, String.append_assoc]

theorem indexPath_eq (m : NamedModel) : m.indexPath = Path.ofNames m.names.indexPlace := by
  rw [indexPath, Path.ofNames, Path.mk.injEq, ← String.toList_inj]
  simp [directory, Name.indexPlace, String.intercalate_cons_cons]

end NamedModel

/-- The paths of a tree are its places, in order. -/
theorem Artifact.map_path_project {c : Context} {tree : List Artifact} (h : c.WellNamed)
    (htree : project c = .ok tree) : tree.map path = c.places.map Path.ofNames := by
  have hmodel : ∀ {m : NamedModel} {files : List Artifact}, ofModel c m = .ok files →
      files.map path = (m.names.modelPlaces c.config.makeIndexFile).map Path.ofNames := by
    intro m files hfiles
    obtain ⟨e, -, d, -, s, -, rfl⟩ := ofModel_eq_ok.mp hfiles
    rw [Name.modelPlaces]
    split
    · simp [modelIndex, m.entityPath_eq, m.dtoPath_eq, m.servicePath_eq, m.indexPath_eq]
    · simp [m.entityPath_eq, m.dtoPath_eq, m.servicePath_eq]
  have hmodels : ∀ {models : List NamedModel} {modelFiles : List (List Artifact)},
      List.Forall₂ (fun m files => ofModel c m = .ok files) models modelFiles →
      modelFiles.flatten.map path =
        ((models.map NamedModel.names).flatMap
          (Name.modelPlaces c.config.makeIndexFile)).map Path.ofNames := by
    intro models modelFiles hfiles
    induction hfiles with
    | nil => rfl
    | cons hfirst _ ih =>
        rw [List.flatten_cons, List.map_append, hmodel hfirst, ih, List.map_cons,
          List.flatMap_cons, List.map_append]
  have henums : (c.namedEnums.map fun entry => ofEnum entry.1 entry.2).map path =
      (c.enumNames.map Name.enumPlace).map Path.ofNames := by
    rw [← h.map_snd_namedEnums, List.map_map, List.map_map, List.map_map]
    exact List.map_congr_left fun entry _ => ofEnum_path entry.1 entry.2
  obtain ⟨modelFiles, hfiles, rfl⟩ := (project_eq_ok h).mp htree
  rw [Context.places, List.map_append, List.map_append, List.map_append, List.map_append,
    henums, hmodels (mapM_eq_ok_iff.mp hfiles), h.map_names]
  congr 1
  split
  · simp [enumIndexOf_path]
  · rfl

theorem isPlainName_enumDirectory : IsPlainName enumDirectory :=
  ⟨by decide, by decide, by decide, by decide⟩

theorem isPlainName_dtos : IsPlainName "dtos" :=
  ⟨by decide, by decide, by decide, by decide⟩

theorem isPlainName_index : IsPlainName "index.ts" :=
  ⟨by decide, by decide, by decide, by decide⟩

namespace Naming.Name.WellSpelled

variable {n : Name}

theorem pascal_ne_nil (h : n.WellSpelled) : n.pascal.toList ≠ [] := by
  obtain ⟨c, rest, hpascal, -⟩ := h.pascal_head
  rw [hpascal]
  exact List.cons_ne_nil c rest

theorem isPlainName_pascal (h : n.WellSpelled) {after : String} (hafter : '/' ∉ after.toList) :
    IsPlainName (n.pascal ++ after) := by
  rw [← String.empty_append (s := n.pascal)]
  exact Path.isPlainName_of_spelling h.pascal_ne_nil h.pascal_alphanum (by decide) hafter

theorem isPlainName_camel (h : n.WellSpelled) {after : String} (hafter : '/' ∉ after.toList) :
    IsPlainName (n.camel ++ after) := by
  rw [← String.empty_append (s := n.camel)]
  exact Path.isPlainName_of_spelling h.camel_ne_nil h.camel_alphanum (by decide) hafter

theorem pascal_ne_index (h : n.WellSpelled) : n.pascal ++ ".ts" ≠ "index.ts" := by
  obtain ⟨c, rest, hpascal, hlower⟩ := h.pascal_head
  intro heq
  have hchars : c :: (rest ++ ".ts".toList) = "index.ts".toList := by
    rw [← heq, String.toList_append, hpascal, List.cons_append]
  have hc : c = 'i' := (List.cons.inj hchars).1
  rw [hc] at hlower
  revert hlower
  decide

/-- The places of a model are made of names and begin with its directory. -/
theorem of_mem_modelPlaces (h : n.WellSpelled) {withIndex : Bool} {p : List String}
    (hp : p ∈ n.modelPlaces withIndex) :
    (∀ s ∈ p, IsPlainName s) ∧ ∃ rest, p = n.camel :: rest := by
  have hdirectory : IsPlainName n.camel := by
    have hcamel : IsPlainName (n.camel ++ "") := h.isPlainName_camel (by decide)
    rwa [String.append_empty] at hcamel
  have hentity : IsPlainName (n.pascal ++ "Base.ts") := h.isPlainName_pascal (by decide)
  have hservice : IsPlainName (n.camel ++ "Base.service.ts") := h.isPlainName_camel (by decide)
  have hdto : IsPlainName ("Create-" ++ n.pascal ++ ".dto.ts") :=
    Path.isPlainName_of_spelling h.pascal_ne_nil h.pascal_alphanum (by decide) (by decide)
  rcases eq_of_mem_modelPlaces hp with rfl | rfl | rfl | rfl
  · exact ⟨by simp [entityPlace, hdirectory, hentity], _, rfl⟩
  · exact ⟨by simp [dtoPlace, hdirectory, isPlainName_dtos, hdto], _, rfl⟩
  · exact ⟨by simp [servicePlace, hdirectory, hservice], _, rfl⟩
  · exact ⟨by simp [indexPlace, hdirectory, isPlainName_index], _, rfl⟩

end Naming.Name.WellSpelled

theorem Naming.Name.WellSpelled.isPlainName_of_mem_enumPlace {n : Name} (h : n.WellSpelled) :
    ∀ s ∈ n.enumPlace, IsPlainName s := by
  have hpascal : IsPlainName (n.pascal ++ ".ts") := h.isPlainName_pascal (by decide)
  simp [Name.enumPlace, isPlainName_enumDirectory, hpascal]

theorem Artifact.components_ofEnum (e : Enumeration) {n : Name} (h : n.WellSpelled) :
    (ofEnum e n).path.components = n.enumPlace.map .name := by
  rw [ofEnum_path]
  exact Path.components_ofNames (by simp [Name.enumPlace]) h.isPlainName_of_mem_enumPlace

theorem Artifact.components_enumIndexOf (names : NameTable) :
    (enumIndexOf names).path.components = enumIndexPlace.map .name := by
  rw [enumIndexOf_path]
  decide +kernel

namespace NamedModel

variable {m : NamedModel}

theorem components_place (h : m.names.WellSpelled) {p : List String}
    (hp : p ∈ m.names.modelPlaces true) : (Path.ofNames p).components = p.map .name := by
  obtain ⟨hplain, rest, rfl⟩ := h.of_mem_modelPlaces hp
  exact Path.components_ofNames (by simp) hplain

theorem components_entityPath (h : m.names.WellSpelled) :
    m.entityPath.components = m.names.entityPlace.map .name := by
  rw [m.entityPath_eq, components_place h m.names.entityPlace_mem]

theorem components_dtoPath (h : m.names.WellSpelled) :
    m.dtoPath.components = m.names.dtoPlace.map .name := by
  rw [m.dtoPath_eq, components_place h m.names.dtoPlace_mem]

theorem components_servicePath (h : m.names.WellSpelled) :
    m.servicePath.components = m.names.servicePlace.map .name := by
  rw [m.servicePath_eq, components_place h m.names.servicePlace_mem]

theorem components_indexPath (h : m.names.WellSpelled) :
    m.indexPath.components = m.names.indexPlace.map .name := by
  rw [m.indexPath_eq, components_place h m.names.indexPlace_mem]

end NamedModel

namespace Context.WellNamed

variable {c : Context}

theorem wellSpelled_model (h : c.WellNamed) {n : Name} (hn : n ∈ c.modelNames) :
    n.WellSpelled :=
  h.models.wellSpelled hn

theorem wellSpelled_enum (h : c.WellNamed) {n : Name} (hn : n ∈ c.enumNames) :
    n.WellSpelled :=
  h.enums.wellSpelled hn

theorem isPlainName_of_mem_places (h : c.WellNamed) {p : List String} (hp : p ∈ c.places) :
    p ≠ [] ∧ ∀ s ∈ p, IsPlainName s := by
  rcases List.mem_append.mp hp with hp | hp
  · rcases List.mem_append.mp hp with hp | hp
    · obtain ⟨n, hn, rfl⟩ := List.mem_map.mp hp
      exact ⟨by simp [Name.enumPlace], (h.wellSpelled_enum hn).isPlainName_of_mem_enumPlace⟩
    · obtain ⟨n, hn, hp⟩ := List.mem_flatMap.mp hp
      obtain ⟨hplain, rest, rfl⟩ := (h.wellSpelled_model hn).of_mem_modelPlaces hp
      exact ⟨by simp, hplain⟩
  · split at hp
    · rw [List.mem_singleton.mp hp]
      refine ⟨by simp [enumIndexPlace], ?_⟩
      simp [enumIndexPlace, isPlainName_enumDirectory, isPlainName_index]
    · cases hp

theorem pairwise_modelPlaces (n : Name) (withIndex : Bool) :
    (n.modelPlaces withIndex).Pairwise SideBySide := by
  have hentity_dto : SideBySide n.entityPlace n.dtoPlace := by
    refine sideBySide_cons.mpr (.inr (sideBySide_cons.mpr (.inl ?_)))
    refine ne_of_ending_ne 3 ?_
    rw [ending_append (by decide)]
    decide
  have hentity_service : SideBySide n.entityPlace n.servicePlace := by
    refine sideBySide_cons.mpr (.inr (sideBySide_cons.mpr (.inl ?_)))
    exact append_ne_append 5 (by decide) (by decide) (by decide)
  have hentity_index : SideBySide n.entityPlace n.indexPlace := by
    refine sideBySide_cons.mpr (.inr (sideBySide_cons.mpr (.inl ?_)))
    refine ne_of_ending_ne 5 ?_
    rw [ending_append (by decide)]
    decide
  have hdto_service : SideBySide n.dtoPlace n.servicePlace := by
    refine sideBySide_cons.mpr (.inr (sideBySide_cons.mpr (.inl ?_)))
    refine ne_of_ending_ne 3 ?_
    rw [ending_append (by decide)]
    decide
  have hdto_index : SideBySide n.dtoPlace n.indexPlace :=
    sideBySide_cons.mpr (.inr (sideBySide_cons.mpr (.inl (by decide))))
  have hservice_index : SideBySide n.servicePlace n.indexPlace := by
    refine sideBySide_cons.mpr (.inr (sideBySide_cons.mpr (.inl ?_)))
    refine ne_of_ending_ne 5 ?_
    rw [ending_append (by decide)]
    decide
  rw [Name.modelPlaces]
  cases withIndex with
  | true =>
      simp [hentity_dto, hentity_service, hentity_index, hdto_service, hdto_index, hservice_index]
  | false => simp [hentity_dto, hentity_service, hdto_service]

/-- No place is another one or a directory above it. -/
theorem pairwise_places (h : c.WellNamed) : c.places.Pairwise SideBySide := by
  have hmodel : ∀ n ∈ c.modelNames, ∀ p ∈ n.modelPlaces c.config.makeIndexFile,
      ∀ rest, SideBySide (enumDirectory :: rest) p := by
    intro n hn p hp rest
    obtain ⟨-, tail, rfl⟩ := (h.wellSpelled_model hn).of_mem_modelPlaces hp
    exact sideBySide_cons.mpr (.inl (h.directories n hn).symm)
  rw [Context.places, List.pairwise_append, List.pairwise_append, List.pairwise_map,
    List.pairwise_flatMap]
  refine ⟨⟨?_, ⟨?_, ?_⟩, ?_⟩, ?_, ?_⟩
  · -- Two enums.
    refine h.enums.apart.imp fun {a b} hab => ?_
    refine sideBySide_cons.mpr (.inr (sideBySide_cons.mpr (.inl fun heq => hab.pascal ?_)))
    exact (String.append_left_inj _).mp heq
  · -- Two files of one model.
    exact fun n _ => pairwise_modelPlaces n _
  · -- Files of two models.
    refine h.models.apart.imp_of_mem fun {a b} ha hb hab p hp q hq => ?_
    obtain ⟨-, restP, rfl⟩ := (h.wellSpelled_model ha).of_mem_modelPlaces hp
    obtain ⟨-, restQ, rfl⟩ := (h.wellSpelled_model hb).of_mem_modelPlaces hq
    exact sideBySide_cons.mpr (.inl hab.camel)
  · -- An enum and a file of a model.
    intro p hp q hq
    obtain ⟨e, -, rfl⟩ := List.mem_map.mp hp
    obtain ⟨n, hn, hq⟩ := List.mem_flatMap.mp hq
    exact hmodel n hn q hq _
  · split
    · exact List.pairwise_singleton _ _
    · exact List.Pairwise.nil
  · -- Any other file and the index of the enums.
    intro p hp q hq
    split at hq
    · rw [List.mem_singleton.mp hq]
      rcases List.mem_append.mp hp with hp | hp
      · obtain ⟨e, he, rfl⟩ := List.mem_map.mp hp
        refine sideBySide_cons.mpr (.inr (sideBySide_cons.mpr (.inl ?_)))
        exact (h.wellSpelled_enum he).pascal_ne_index
      · obtain ⟨n, hn, hp⟩ := List.mem_flatMap.mp hp
        exact (hmodel n hn p hp _).symm
    · cases hq

end Context.WellNamed

namespace Generates

variable {options : Options} {config : Config} {env : Environment} {workingDirectory : Path}
  {c : Context} {tree : List Artifact} {out : Output}

theorem map_path_files (h : Generates options config env workingDirectory c tree out) :
    out.files.map GeneratedFile.path = c.places.map Path.ofNames := by
  rw [← Artifact.map_path_project h.wellNamed h.project, h.files, List.map_map]
  rfl

theorem map_components_files (h : Generates options config env workingDirectory c tree out) :
    (out.files.map fun f => f.path.components) =
      c.places.map fun names => names.map Component.name := by
  have hcomponents : (out.files.map fun f => f.path.components) =
      (out.files.map GeneratedFile.path).map Path.components := by
    rw [List.map_map]
    rfl
  rw [hcomponents, h.map_path_files, List.map_map]
  refine List.map_congr_left fun names hnames => ?_
  obtain ⟨hne, hplain⟩ := h.wellNamed.isPlainName_of_mem_places hnames
  exact Path.components_ofNames hne hplain

theorem pairwise_components (h : Generates options config env workingDirectory c tree out) :
    (out.files.map fun f => f.path.components).Pairwise SideBySide := by
  rw [h.map_components_files, List.pairwise_map]
  refine h.wellNamed.pairwise_places.imp fun {p q} hpq => hpq.map ?_
  exact fun _ _ hname => Component.name.inj hname

theorem isPlain_path (h : Generates options config env workingDirectory c tree out)
    {f : GeneratedFile} (hf : f ∈ out.files) : f.path.IsPlain := by
  have hpath : f.path ∈ out.files.map GeneratedFile.path := List.mem_map_of_mem hf
  rw [h.map_path_files] at hpath
  obtain ⟨names, hnames, heq⟩ := List.mem_map.mp hpath
  obtain ⟨hne, hplain⟩ := h.wellNamed.isPlainName_of_mem_places hnames
  rw [← heq]
  exact Path.isPlain_ofNames hne hplain

end Generates

/-- The files of a run lie below the output directory, each at a path of its own, and
none lies where another needs a directory. -/
theorem generate_paths {options : Options} {config : Config} {env : Environment}
    {workingDirectory : Path} {out : Output}
    (h : generate options config env workingDirectory = .ok out) :
    (∀ f ∈ out.files, f.path.IsPlain) ∧
      (out.files.map fun f => f.path.components).Nodup ∧
      ∀ f ∈ out.files, ∀ g ∈ out.files, ¬ f.path.IsAncestorOf g.path := by
  obtain ⟨c, tree, hrun⟩ := exists_generates h
  refine ⟨fun f hf => hrun.isPlain_path hf, ?_, ?_⟩
  · exact List.nodup_iff_pairwise_ne.mpr (hrun.pairwise_components.imp SideBySide.ne)
  · rintro f hf g hg ⟨hbegins, hne⟩
    have hapart := hrun.pairwise_components.forall (List.mem_map_of_mem hf)
      (List.mem_map_of_mem hg) hne
    exact hapart.1 hbegins

theorem generate_paths_smallDatamodel :
    ∃ out, generate (.ofDatamodel smallDatamodel) .standard (fun _ => none) ⟨"/work"⟩ = .ok out ∧
      (∀ f ∈ out.files, f.path.IsPlain) ∧
      (out.files.map fun f => f.path.components).Nodup ∧
      ∀ f ∈ out.files, ∀ g ∈ out.files, ¬ f.path.IsAncestorOf g.path := by
  obtain ⟨out, hout⟩ := exists_generate_smallDatamodel
  exact ⟨out, hout, generate_paths hout⟩

end Scaffold
