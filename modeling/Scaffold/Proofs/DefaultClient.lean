import Scaffold.Client
import Scaffold.Proofs.Ways

/-!
# The client where packages are

A project that says nothing about its client has it in the directory of packages. Generated
files then import it under the name of its package, wherever the project is: the way from a
root to a path of names below it is that path, so nothing of the root is left in the import,
be it climbing, absolute or a single dot.

The root itself is one component above the schema file, or two where the schema stands in a
directory of its own. Both steps up are made on the text, and the text may be used up by them;
the dot that takes its place has the same normal form.
-/

namespace Scaffold.ClientPaths

open Document (Environment Generator Options)
open Scaffold.Path (IsPlainName ofNames)

theorem projectRoot_text_ne (schema : Path) : (projectRoot schema).text ≠ "" := by
  rw [projectRoot]
  split
  · split
    · decide
    · next hne => simpa using hne
  · decide

/-- A schema in a directory of its own has the root two components above it. -/
theorem normal_projectRoot {schema : Path} {before : List Component}
    (h : schema.components = before ++ schemaPlace) :
    Path.normal (projectRoot schema).components = Path.normal before := by
  have hlast : schema.components =
      before ++ [.name "prisma"] ++ [.name "schema.prisma"] := by
    rw [h, schemaPlace, List.append_assoc]
    rfl
  obtain ⟨directory, hdirectory⟩ := Path.exists_parent? hlast
  have hupper : directory.components = before ++ [.name "prisma"] := by
    rw [Path.components_parent? hdirectory, hlast, List.dropLast_concat]
  obtain ⟨root, hroot⟩ := Path.exists_parent? hupper
  have hcomponents : root.components = before := by
    rw [Path.components_parent? hroot, hupper, List.dropLast_concat]
  have hends : schema.endsWith schemaPlace = true := by
    rw [Path.endsWith, List.isSuffixOf_iff_suffix, h]
    exact List.suffix_append before schemaPlace
  rw [projectRoot, if_pos hends, hdirectory, Option.bind_some, hroot]
  dsimp only
  split
  · next hempty =>
      obtain ⟨text⟩ := root
      have htext : text = "" := by simpa using hempty
      subst htext
      rw [← hcomponents]
      decide
  · rw [hcomponents]

theorem defaultClient_eq : defaultClient = ofNames ["node_modules", "@prisma", "client"] := by
  decide

theorem isPlainName_of_mem_defaultClient :
    ∀ s ∈ ["node_modules", "@prisma", "client"], IsPlainName s := by
  simp only [List.forall_mem_cons]
  exact ⟨Path.isPlainName_of_mem (c := 'n') (by decide) (by decide) (by decide),
    Path.isPlainName_of_mem (c := 'p') (by decide) (by decide) (by decide),
    Path.isPlainName_of_mem (c := 'c') (by decide) (by decide) (by decide), by simp⟩

theorem schemaFile_eq :
    (⟨"prisma/schema.prisma"⟩ : Path) = ofNames ["prisma", "schema.prisma"] := by
  decide

theorem isPlainName_of_mem_schemaPlace : ∀ s ∈ ["prisma", "schema.prisma"], IsPlainName s := by
  simp only [List.forall_mem_cons]
  exact ⟨Path.isPlainName_of_mem (c := 'p') (by decide) (by decide) (by decide),
    Path.isPlainName_of_mem (c := 's') (by decide) (by decide) (by decide), by simp⟩

theorem importPathOf_defaultClient : importPathOf defaultClient.text = "@prisma/client" := by
  decide

/-- Below the root of its project, a schema in a directory of its own is where it is. -/
theorem normal_projectRoot_join {schema : Path} (h : schemaPlace <:+ schema.components) :
    Path.normal ((projectRoot schema).join ⟨"prisma/schema.prisma"⟩).components =
      Path.normal schema.components := by
  obtain ⟨before, hbefore⟩ := h
  rw [schemaFile_eq, Path.components_join (List.cons_ne_nil _ _) isPlainName_of_mem_schemaPlace,
    Path.normal_append_names, normal_projectRoot hbefore.symm, ← hbefore,
    ← Path.normal_append_names]
  rfl

theorem relative_defaultClient (workingDirectory : Path) {root : Path} (h : root.text ≠ "") :
    Path.relative workingDirectory root (root.join defaultClient) = .ok defaultClient.text := by
  rw [defaultClient_eq]
  exact Path.relative_join workingDirectory h (List.cons_ne_nil _ _)
    isPlainName_of_mem_defaultClient

theorem components_join_defaultClient (root : Path) :
    (root.join defaultClient).components =
      root.components ++ [.name "node_modules", .name "@prisma", .name "client"] := by
  rw [defaultClient_eq]
  exact Path.components_join (List.cons_ne_nil _ _) isPlainName_of_mem_defaultClient

/-- Where no generator says where it puts the client, the client is found, and no root shows
in the name that it is imported under. A schema in a directory of its own lies below the root
where it is expected. -/
theorem resolve_default {options : Options} (env : Environment) (workingDirectory : Path)
    (h : ∀ g, options.clientGenerator? = some g → g.output = none) :
    ∃ paths, resolve options env workingDirectory = .ok paths ∧
      paths.root = (options.schemaPath.map projectRoot).getD ⟨"."⟩ ∧
      paths.client = paths.root.join defaultClient ∧
      paths.client.components =
        paths.root.components ++ [.name "node_modules", .name "@prisma", .name "client"] ∧
      paths.importPath = "@prisma/client" ∧
      ∀ schema, options.schemaPath = some schema → schemaPlace <:+ schema.components →
        Path.normal (paths.root.join ⟨"prisma/schema.prisma"⟩).components =
          Path.normal schema.components := by
  obtain ⟨root, hroot⟩ :
      ∃ root, root = (options.schemaPath.map projectRoot).getD ⟨"."⟩ := ⟨_, rfl⟩
  have htext : root.text ≠ "" := by
    cases hschema : options.schemaPath with
    | none =>
        rw [hroot, hschema]
        decide
    | some schema =>
        rw [hroot, hschema]
        exact projectRoot_text_ne schema
  have houtput : options.clientGenerator?.bind Generator.output = none :=
    Option.bind_eq_none_iff.mpr h
  have hresolve : resolve options env workingDirectory =
      .ok ⟨root, root.join defaultClient, importPathOf defaultClient.text⟩ := by
    rw [resolve, houtput, ← hroot]
    dsimp only
    rw [ofPaths, relative_defaultClient workingDirectory htext]
    rfl
  refine ⟨_, hresolve, hroot, rfl, components_join_defaultClient root,
    importPathOf_defaultClient, ?_⟩
  intro schema hschema hplace
  have hbelow : root = projectRoot schema := by
    rw [hroot, hschema]
    rfl
  dsimp only
  rw [hbelow]
  exact normal_projectRoot_join hplace

/-- A document with a generator for the client that says nothing about its place. -/
def climbingOptions : Options where
  schemaPath := some ⟨"..//app/./prisma/schema.prisma/"⟩
  generator := .unspecified
  otherGenerators := [⟨some "client", some ⟨some Document.clientProvider, none⟩, none, []⟩]
  datamodel := ⟨[], []⟩

theorem resolve_default_climbingOptions :
    ∃ paths, resolve climbingOptions (fun _ => none) ⟨"/work"⟩ = .ok paths ∧
      paths.root = ⟨"..//app"⟩ ∧
      paths.client = ⟨"..//app/node_modules/@prisma/client"⟩ ∧
      paths.importPath = "@prisma/client" ∧
      Path.normal (paths.root.join ⟨"prisma/schema.prisma"⟩).components =
        [.parent, .name "app", .name "prisma", .name "schema.prisma"] := by
  have hsilent : ∀ g, climbingOptions.clientGenerator? = some g → g.output = none := by
    intro g hg
    have hfirst : climbingOptions.clientGenerator? = climbingOptions.otherGenerators.head? := by
      rfl
    rw [hfirst] at hg
    rw [← Option.some.inj hg]
  obtain ⟨paths, hpaths, hroot, hclient, -, himport, hplace⟩ :=
    resolve_default (fun _ => none) ⟨"/work"⟩ hsilent
  have hplain : paths.root = ⟨"..//app"⟩ := hroot.trans (by decide)
  refine ⟨paths, hpaths, hplain, ?_, himport, ?_⟩
  · rw [hclient, hplain]
    decide
  · rw [hplace ⟨"..//app/./prisma/schema.prisma/"⟩ rfl (by decide)]
    decide

end Scaffold.ClientPaths
