import Scaffold.Proofs.Order

/-!
# One document under two configurations

The configuration decides how files are written and not whether there are any: it takes
part in none of the checks of a run, so a document is generated under every configuration
or under none. Two runs of one document have contexts that differ in the configuration
alone, go through the same declarations in the same order and give the same warnings.

What is left to compare is file against file. Only entities and create-DTOs look at the
configuration, apart from the question whether there are index files, and
`forall₂_project` carries a relation between two such files to the trees as a whole.
-/

namespace Scaffold

open Document (Environment Options)
open Schema
open TypeScript

namespace Context

variable {c : Context}

/-- A context under another configuration. -/
def withConfig (c : Context) (config : Config) : Context :=
  { c with config := config }

theorem WellNamed.withConfig (h : c.WellNamed) (config : Config) :
    (c.withConfig config).WellNamed :=
  ⟨h.models, h.enums, h.directories⟩

theorem ofDatamodel_withConfig {d : Datamodel} {config : Config} (config' : Config)
    (h : ofDatamodel d config = .ok c) : ofDatamodel d config' = .ok (c.withConfig config') := by
  obtain ⟨rfl, -, -⟩ := ofDatamodel_spec h
  exact ofDatamodel_of_names h rfl rfl

theorem ofOptions_withConfig {options : Options} {config : Config} {env : Environment}
    {workingDirectory : Path} (config' : Config)
    (h : ofOptions options config env workingDirectory = .ok c) :
    ofOptions options config' env workingDirectory = .ok (c.withConfig config') := by
  obtain ⟨paths, hpaths, unplaced, hunplaced, rfl⟩ := ofOptions_eq_ok.mp h
  exact ofOptions_eq_ok.mpr
    ⟨paths, hpaths, _, ofDatamodel_withConfig config' hunplaced, rfl⟩

end Context

namespace Artifact

variable {c : Context} {config : Config} {m : NamedModel}

/-- Entities that differ in their imports and in their properties at most. -/
structure Entity.Alike (e e' : Entity) : Prop where
  keyType : e'.keyType = e.keyType
  documentation : e'.documentation = e.documentation
  className : e'.className = e.className
  primaryKey : e'.primaryKey = e.primaryKey
  uniqueIndexes : e'.uniqueIndexes = e.uniqueIndexes

namespace Entity.Alike

variable {e e' : Entity}

theorem statics (h : e.Alike e') : e'.statics = e.statics := by
  rw [Entity.statics, Entity.statics, h.primaryKey, h.uniqueIndexes]

theorem opening (h : e.Alike e') : e'.opening = e.opening := by
  rw [Entity.opening, Entity.opening, Entity.keyText, Entity.keyText, h.keyType, h.documentation]

theorem classWith (h : e.Alike e') (properties : List Property) :
    e'.classWith properties = e.classWith properties := by
  rw [Entity.classWith, Entity.classWith, h.className, h.statics]

end Entity.Alike

/-- The entities of a model are made from the same parts under all configurations. -/
theorem exists_parts_of_entity {e e' : Entity} (he : Entity.ofModel c m = .ok e)
    (he' : Entity.ofModel (c.withConfig config) m = .ok e') :
    ∃ key typed typeImports, typedFields c m.model = .ok typed ∧
      typed.mapM (fun t => entityImport? c m t.type) = .ok typeImports ∧
      e = Entity.ofParts c m key typed typeImports ∧
      e' = Entity.ofParts (c.withConfig config) m key typed typeImports := by
  obtain ⟨key, hkey, -, typed, htyped, typeImports, himports, rfl⟩ := entity_ofModel_eq_ok.mp he
  obtain ⟨key', hkey', -, typed', htyped', typeImports', himports', rfl⟩ :=
    entity_ofModel_eq_ok.mp he'
  obtain rfl : key = key' := Except.ok.inj (hkey.symm.trans hkey')
  obtain rfl : typed = typed' := Except.ok.inj (htyped.symm.trans htyped')
  obtain rfl : typeImports = typeImports' := Except.ok.inj (himports.symm.trans himports')
  exact ⟨key, typed, typeImports, htyped, himports, rfl, rfl⟩

/-- Two trees of one data model are related file by file if their entities and create-DTOs
are, as long as they agree on index files. -/
theorem forall₂_project {r : Artifact → Artifact → Prop} {tree tree' : List Artifact}
    (h : c.WellNamed) (hindex : config.makeIndexFile = c.config.makeIndexFile)
    (htree : project c = .ok tree) (htree' : project (c.withConfig config) = .ok tree')
    (hsame : ∀ a : Artifact, a.body.role ≠ .entity → a.body.role ≠ .createDto → r a a)
    (hentity : ∀ m ∈ c.namedModels, ∀ e e', Entity.ofModel c m = .ok e →
      Entity.ofModel (c.withConfig config) m = .ok e' →
      r ⟨m.entityPath, .entity e⟩ ⟨m.entityPath, .entity e'⟩)
    (hdto : ∀ m ∈ c.namedModels, ∀ d d', CreateDto.ofModel c m = .ok d →
      CreateDto.ofModel (c.withConfig config) m = .ok d' →
      r ⟨m.dtoPath, .createDto d⟩ ⟨m.dtoPath, .createDto d'⟩) :
    List.Forall₂ r tree tree' := by
  obtain ⟨modelFiles, hmodels, rfl⟩ := (project_eq_ok h).mp htree
  obtain ⟨modelFiles', hmodels', rfl⟩ := (project_eq_ok (h.withConfig config)).mp htree'
  have hindexes : List.Forall₂ r
      (if c.config.makeIndexFile && !c.datamodel.enums.isEmpty then
        [enumIndexOf c.enumNames] else [])
      (if config.makeIndexFile && !c.datamodel.enums.isEmpty then
        [enumIndexOf c.enumNames] else []) := by
    rw [hindex]
    split
    · refine .cons (hsame _ ?_ ?_) .nil
      · simp [enumIndexOf, Body.role]
      · simp [enumIndexOf, Body.role]
    · exact .nil
  have henums : List.Forall₂ r (c.namedEnums.map fun entry => ofEnum entry.1 entry.2)
      (c.namedEnums.map fun entry => ofEnum entry.1 entry.2) := by
    refine List.forall₂_same.mpr fun a ha => ?_
    obtain ⟨entry, -, rfl⟩ := List.mem_map.mp ha
    exact hsame _ (by simp [ofEnum, Body.role]) (by simp [ofEnum, Body.role])
  refine List.rel_append (List.rel_append henums (List.rel_flatten ?_)) hindexes
  refine forall₂_of_mapM_eq_ok hmodels hmodels' fun m hm files files' hfiles hfiles' => ?_
  obtain ⟨e, he, d, hd, s, hs, rfl⟩ := ofModel_eq_ok.mp hfiles
  obtain ⟨e', he', d', hd', s', hs', rfl⟩ := ofModel_eq_ok.mp hfiles'
  obtain rfl : s = s' := Except.ok.inj (hs.symm.trans hs')
  refine List.rel_append ?_ ?_
  · exact .cons (hentity m hm e e' he he') (.cons (hdto m hm d d' hd hd')
      (.cons (hsame _ (by simp [Body.role]) (by simp [Body.role])) .nil))
  · show List.Forall₂ r _ (if config.makeIndexFile then [modelIndex m] else [])
    rw [hindex]
    split
    · refine .cons (hsame _ ?_ ?_) .nil
      · simp [modelIndex, Body.role]
      · simp [modelIndex, Body.role]
    · exact .nil

end Artifact

section Runs

variable {options : Options} {config config' : Config} {env : Environment}
  {workingDirectory : Path} {out out' : Output}

/-- A document is generated under every configuration or under none. -/
theorem exists_generate_congr (options : Options) (config config' : Config) (env : Environment)
    (workingDirectory : Path) :
    (∃ out, generate options config env workingDirectory = .ok out) ↔
      ∃ out, generate options config' env workingDirectory = .ok out := by
  rw [exists_generate_iff, exists_generate_iff]
  refine and_congr_right fun _ => and_congr_right fun _ => ?_
  constructor
  · rintro ⟨c, hc⟩
    exact ⟨_, Context.ofDatamodel_withConfig config' hc⟩
  · rintro ⟨c, hc⟩
    exact ⟨_, Context.ofDatamodel_withConfig config hc⟩

/-- Runs of one document under two configurations have contexts that differ in these. -/
theorem exists_generates_withConfig
    (h : generate options config env workingDirectory = .ok out)
    (h' : generate options config' env workingDirectory = .ok out') :
    ∃ c tree tree', Generates options config env workingDirectory c tree out ∧
      Generates options config' env workingDirectory (c.withConfig config') tree' out' := by
  obtain ⟨c, tree, hrun⟩ := exists_generates h
  obtain ⟨c', tree', hrun'⟩ := exists_generates h'
  have hc := Context.ofOptions_withConfig config' hrun.context
  rw [hrun'.context] at hc
  obtain rfl : c' = c.withConfig config' := Except.ok.inj hc
  exact ⟨c, tree, tree', hrun, hrun'⟩

theorem warnings_eq_of_generate (h : generate options config env workingDirectory = .ok out)
    (h' : generate options config' env workingDirectory = .ok out') :
    out.warnings = out'.warnings := by
  obtain ⟨-, -, -, -, -, warnings, hwarnings, rfl⟩ := generate_eq_ok.mp h
  obtain ⟨-, -, -, -, -, warnings', hwarnings', rfl⟩ := generate_eq_ok.mp h'
  exact Except.ok.inj (hwarnings.symm.trans hwarnings')

end Runs

end Scaffold
