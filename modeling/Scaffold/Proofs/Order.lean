import Mathlib.Data.List.Perm.Basic
import Scaffold.Proofs.Imports
import Scaffold.Proofs.Locality
import Scaffold.Proofs.Success

/-!
# The order of declarations does not matter

Most of a run goes through lists from front to back: names are looked at for repetitions
and clashes with earlier ones, and the first defect ends the run. Which defect is found
depends on the order. That none is found does not, because each of these loops comes
down to a condition on the declarations as a set or on pairs of them either way round.

For the files the argument is on members. No file occurs twice, so two runs hand over
the same files up to order as soon as every file of one is a file of the other. The one
artifact that lists declarations is the index of the enums, and its text sorts them.
-/

namespace Scaffold

open Document (Environment Options)
open Naming (Name)
open Schema

namespace Schema.Datamodel

variable {d d' : Datamodel}

/-- The same declarations, in another order perhaps. -/
structure Reorders (d d' : Datamodel) : Prop where
  enums : d'.enums.Perm d.enums
  models : d'.models.Perm d.models

theorem Reorders.symm (h : d.Reorders d') : d'.Reorders d :=
  ⟨h.enums.symm, h.models.symm⟩

theorem Declares.reorder (h : d.Reorders d') {kind : Kind} (hkind : d.Declares kind) :
    d'.Declares kind := by
  cases kind with
  | scalar type => exact trivial
  | object name => exact trivial
  | enumeration name => exact (h.enums.map Enumeration.name).mem_iff.mpr hkind
  | relation r => exact (h.models.map Model.name).mem_iff.mpr hkind

theorem Sound.reorder (h : d.Reorders d') (hsound : d.Sound) : d'.Sound := by
  refine ⟨?_, ?_, ?_, ?_⟩
  · exact (h.enums.map Enumeration.name).nodup_iff.mpr hsound.enumNames
  · exact (h.models.map Model.name).nodup_iff.mpr hsound.modelNames
  · intro m hm
    exact hsound.models m (h.models.mem_iff.mp hm)
  · intro m hm f hf
    exact (hsound.types m (h.models.mem_iff.mp hm) f hf).reorder h

end Schema.Datamodel

/-- Names in another order are spelled by the same table in another order. -/
theorem NameTable.Spells.reorder {table : NameTable} {names names' : List String}
    (h : table.Spells names) (hperm : names'.Perm names) :
    ∃ table' : NameTable, table'.Spells names' ∧ table'.Perm table := by
  obtain ⟨table', hspelled, htable⟩ := List.perm_comp_forall₂ hperm h.spelled
  refine ⟨table', ⟨hspelled, ?_⟩, htable⟩
  exact (htable.pairwise_iff fun {_ _} hab => Std.Symm.symm _ _ hab).mpr h.apart

namespace Context

variable {d d' : Datamodel} {config : Config}

theorem exists_ofDatamodel_reorder (h : d.Reorders d')
    (hd : ∃ c, ofDatamodel d config = .ok c) : ∃ c, ofDatamodel d' config = .ok c := by
  obtain ⟨modelNames, enumNames, hmodels, henums, hdirectories⟩ := exists_ofDatamodel_iff.mp hd
  obtain ⟨modelNames', hmodels', hperm⟩ := hmodels.reorder (h.models.map Model.name)
  obtain ⟨enumNames', henums', -⟩ := henums.reorder (h.enums.map Enumeration.name)
  refine exists_ofDatamodel_iff.mpr ⟨modelNames', enumNames', hmodels', henums', ?_⟩
  intro n hn
  exact hdirectories n (hperm.mem_iff.mp hn)

end Context

/-- A document is generated exactly if it passes its three checks. -/
theorem exists_generate_iff {options : Options} {config : Config} {env : Environment}
    {workingDirectory : Path} :
    (∃ out, generate options config env workingDirectory = .ok out) ↔
      options.datamodel.Sound ∧
        (∃ paths, ClientPaths.resolve options env workingDirectory = .ok paths) ∧
        ∃ c, Context.ofDatamodel options.datamodel config = .ok c := by
  constructor
  · rintro ⟨out, hout⟩
    obtain ⟨hvalid, c, hc, -⟩ := generate_eq_ok.mp hout
    obtain ⟨paths, hpaths, unplaced, hunplaced, -⟩ := Context.ofOptions_eq_ok.mp hc
    exact ⟨Datamodel.validate_eq_ok_iff.mp hvalid, ⟨paths, hpaths⟩, ⟨unplaced, hunplaced⟩⟩
  · rintro ⟨hsound, ⟨paths, hpaths⟩, ⟨unplaced, hunplaced⟩⟩
    have hc := Context.ofOptions_eq_ok.mpr ⟨paths, hpaths, unplaced, hunplaced, rfl⟩
    obtain ⟨hdatamodel, -, hnamed, -⟩ := Context.ofOptions_spec hc
    obtain ⟨tree, htree⟩ := Artifact.exists_project
      (c := { unplaced with clientPaths := some paths })
      ⟨hnamed, hdatamodel ▸ hsound, paths.importPath, rfl⟩
    obtain ⟨warnings, hwarnings⟩ := exists_warningsOf hsound
    exact ⟨_, generate_eq_ok.mpr
      ⟨Datamodel.validate_eq_ok_iff.mpr hsound, _, hc, tree, htree, warnings, hwarnings, rfl⟩⟩

namespace Artifact

theorem toFile_enumIndexOf_perm {names names' : NameTable} (h : names.Perm names') :
    (enumIndexOf names).toFile = (enumIndexOf names').toFile := by
  have htext : (Index.mk (names.map Name.pascal)).text =
      (Index.mk (names'.map Name.pascal)).text := by
    rw [Index.text, Index.text, Text.ascending_congr fun _ => (h.map Name.pascal).mem_iff]
  rw [toFile, toFile, enumIndexOf, enumIndexOf, Body.text, Body.text, htext]
  rfl

end Artifact

section Runs

variable {options : Options} {d' : Datamodel} {config : Config} {env : Environment}
  {workingDirectory : Path} {c c' : Context} {tree tree' : List Artifact} {out out' : Output}

theorem Generates.mem_files_iff
    (h : Generates options config env workingDirectory c tree out) {f : GeneratedFile} :
    f ∈ out.files ↔ ∃ a, Artifact.OfContext c a ∧ a.toFile = f := by
  rw [h.files, List.mem_map]
  exact exists_congr fun a => and_congr_left fun _ => h.mem_tree_iff

theorem Generates.nodup_files
    (h : Generates options config env workingDirectory c tree out) : out.files.Nodup :=
  List.Nodup.of_map _ (List.nodup_iff_pairwise_ne.mpr (h.pairwise_components.imp SideBySide.ne))

/-- A file of a run is a file of the run on reordered declarations. -/
theorem Generates.mem_files_reorder (hd : options.datamodel.Reorders d')
    (h : Generates options config env workingDirectory c tree out)
    (h' : Generates { options with datamodel := d' } config env workingDirectory c' tree' out')
    {f : GeneratedFile} (hf : f ∈ out.files) : f ∈ out'.files := by
  obtain ⟨a, ha, rfl⟩ := h.mem_files_iff.mp hf
  obtain ⟨-, -, -, paths, hpaths, -⟩ := Context.ofOptions_spec h.context
  have hclient : c.clientImportPath = c'.clientImportPath := by
    rw [h.clientImportPath_eq hpaths, h'.clientImportPath_eq hpaths]
  have henums : c'.datamodel.enums.Perm c.datamodel.enums := by
    rw [h.datamodel_eq, h'.datamodel_eq]
    exact hd.enums
  have hmodels : c'.datamodel.models.Perm c.datamodel.models := by
    rw [h.datamodel_eq, h'.datamodel_eq]
    exact hd.models
  have hconfig : c.config = c'.config := by rw [h.config_eq, h'.config_eq]
  have hnamed : ∀ {m : NamedModel}, m ∈ c.namedModels →
      m ∈ c'.namedModels ∧ c.AgreeOn c' m.model := by
    intro m hm
    obtain ⟨hmem, hname⟩ := h.wellNamed.mem_namedModels.mp hm
    have hmem' := hmodels.mem_iff.mpr hmem
    exact ⟨h'.wellNamed.mem_namedModels.mpr ⟨hmem', hname⟩, h.agreeOn h' hclient hmem hmem'⟩
  refine h'.mem_files_iff.mpr ?_
  cases ha with
  | enumeration hmem =>
      obtain ⟨he, hname⟩ := h.wellNamed.mem_namedEnums.mp hmem
      exact ⟨_, .enumeration (h'.wellNamed.mem_namedEnums.mpr ⟨henums.mem_iff.mpr he, hname⟩), rfl⟩
  | entity hm he =>
      obtain ⟨hm', hagree⟩ := hnamed hm
      exact ⟨_, .entity hm' (Artifact.entity_congr hagree ▸ he), rfl⟩
  | createDto hm hdto =>
      obtain ⟨hm', hagree⟩ := hnamed hm
      exact ⟨_, .createDto hm' (Artifact.createDto_congr hagree ▸ hdto), rfl⟩
  | service hm hs =>
      obtain ⟨hm', hagree⟩ := hnamed hm
      exact ⟨_, .service hm' (Artifact.service_congr hagree ▸ hs), rfl⟩
  | modelIndex hm hindex => exact ⟨_, .modelIndex (hnamed hm).1 (hconfig ▸ hindex), rfl⟩
  | enumIndex hindex hsome =>
      have hsome' : c'.datamodel.enums ≠ [] := by
        intro hnil
        rw [hnil] at henums
        exact hsome henums.nil_eq.symm
      refine ⟨_, .enumIndex (hconfig ▸ hindex) hsome', ?_⟩
      refine Artifact.toFile_enumIndexOf_perm ?_
      obtain ⟨table, hspells, hperm⟩ :=
        h.wellNamed.enums.reorder (henums.map Enumeration.name)
      have hbuilt : NameTable.ofNames .enumeration _ = .ok table :=
        NameTable.ofNames_eq_ok_iff.mpr hspells
      rw [NameTable.ofNames_eq_ok_iff.mpr h'.wellNamed.enums] at hbuilt
      rw [Except.ok.inj hbuilt]
      exact hperm

theorem Generates.perm_files (hd : options.datamodel.Reorders d')
    (h : Generates options config env workingDirectory c tree out)
    (h' : Generates { options with datamodel := d' } config env workingDirectory c' tree' out') :
    out'.files.Perm out.files := by
  refine (List.perm_ext_iff_of_nodup h'.nodup_files h.nodup_files).mpr fun f => ?_
  exact ⟨fun hf => h'.mem_files_reorder hd.symm h hf,
    fun hf => h.mem_files_reorder hd h' hf⟩

end Runs

/-- Reordered declarations are warned about in another order. -/
theorem warningsOf_perm {d d' : Datamodel} (h : d.Reorders d') {warnings warnings' : List Warning}
    (hwarnings : warningsOf d = .ok warnings) (hwarnings' : warningsOf d' = .ok warnings') :
    warnings'.Perm warnings := by
  obtain ⟨keys, hkeys, hw⟩ := bind_eq_ok.mp hwarnings
  obtain ⟨keys', hkeys', hw'⟩ := bind_eq_ok.mp hwarnings'
  obtain ⟨moved, hmoved, hperm⟩ :=
    List.perm_comp_forall₂ h.models (mapM_eq_ok_iff.mp hkeys)
  have hsame : moved = keys' :=
    Except.ok.inj ((mapM_eq_ok_iff.mpr hmoved).symm.trans hkeys')
  have hempty : d'.isEmpty = d.isEmpty := by
    rw [Datamodel.isEmpty, Datamodel.isEmpty, h.enums.isEmpty_eq, h.models.isEmpty_eq]
  rw [← pure_eq_ok.mp hw, ← pure_eq_ok.mp hw', ← hsame, hempty]
  exact (hperm.filterMap _).append_left _

/-- Reordering enums and models changes neither whether a document is generated nor, up
to order, what is handed over. -/
theorem generate_reorder {options : Options} {config : Config} {env : Environment}
    {workingDirectory : Path} {enums : List Enumeration} {models : List Model}
    (henums : enums.Perm options.datamodel.enums)
    (hmodels : models.Perm options.datamodel.models) :
    ((∃ out, generate { options with datamodel := ⟨enums, models⟩ } config env
        workingDirectory = .ok out) ↔
      ∃ out, generate options config env workingDirectory = .ok out) ∧
    ∀ out out', generate options config env workingDirectory = .ok out →
      generate { options with datamodel := ⟨enums, models⟩ } config env workingDirectory =
        .ok out' →
      out'.files.Perm out.files ∧ out'.warnings.Perm out.warnings := by
  have hd : options.datamodel.Reorders ⟨enums, models⟩ := ⟨henums, hmodels⟩
  constructor
  · rw [exists_generate_iff, exists_generate_iff]
    refine and_congr ?_ (and_congr Iff.rfl ?_)
    · exact ⟨fun h => h.reorder hd.symm, fun h => h.reorder hd⟩
    · exact ⟨Context.exists_ofDatamodel_reorder hd.symm, Context.exists_ofDatamodel_reorder hd⟩
  · intro out out' hout hout'
    obtain ⟨c, tree, hrun⟩ := exists_generates hout
    obtain ⟨c', tree', hrun'⟩ := exists_generates hout'
    refine ⟨hrun.perm_files hd hrun', ?_⟩
    obtain ⟨-, -, -, -, -, warnings, hwarnings, rfl⟩ := generate_eq_ok.mp hout
    obtain ⟨-, -, -, -, -, warnings', hwarnings', rfl⟩ := generate_eq_ok.mp hout'
    exact warningsOf_perm hd hwarnings hwarnings'

theorem generate_reorder_grownDatamodel :
    grownDatamodel.enums.reverse.Perm grownDatamodel.enums ∧
    grownDatamodel.models.reverse.Perm grownDatamodel.models ∧
    ∃ out out', generate (.ofDatamodel grownDatamodel) .standard (fun _ => none) ⟨"/work"⟩ = .ok out ∧
      generate (.ofDatamodel ⟨grownDatamodel.enums.reverse, grownDatamodel.models.reverse⟩)
        .standard (fun _ => none) ⟨"/work"⟩ = .ok out' ∧
      out'.files.Perm out.files ∧ out'.warnings.Perm out.warnings := by
  have henums := List.reverse_perm grownDatamodel.enums
  have hmodels := List.reverse_perm grownDatamodel.models
  obtain ⟨out, hout⟩ := exists_generate_grownDatamodel
  obtain ⟨haccepted, hsame⟩ := @generate_reorder (.ofDatamodel grownDatamodel) .standard
    (fun _ => none) ⟨"/work"⟩ _ _ henums hmodels
  obtain ⟨out', hout'⟩ := haccepted.mpr ⟨out, hout⟩
  exact ⟨henums, hmodels, out, out', hout, hout', hsame out out' hout hout'⟩

end Scaffold
