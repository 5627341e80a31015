import Scaffold.Proofs.Locality
import Scaffold.Proofs.Omission

/-!
# What stands in the files of a run

A run hands over texts, and most of what is said about its files is said about the parts that
these texts are made from. This is the way back. `Holds` ties a file to the artifact behind
it, and for every kind of part there is a lemma that finds it in the content: the lines of the
imports at the top, a declaration behind its `export`, a property with its decorators above it,
a member of the type of a key.

The lines are spelled out here and not quoted from the functions that write them. A statement
that has one of them in it is about the content of a file, to the last bracket, and about
nothing that the writer could leave out.
-/

namespace Scaffold

open Document (Environment Options)
open TypeScript

/-- A file with the artifact behind it. Below the banner stands the text of the artifact. -/
structure GeneratedFile.Holds (f : GeneratedFile) (a : Artifact) : Prop where
  path : f.path = a.path
  role : f.role = a.body.role
  content : f.content = banner ++ "\n\n" ++ a.body.text

/-- The file of an artifact in an output. There is no other at its place. -/
structure Output.HandsOver (out : Output) (a : Artifact) (f : GeneratedFile) : Prop where
  alone : out.filesAt a.path = [f]
  holds : f.Holds a

/-- A text that stands somewhere in a file. -/
def GeneratedFile.Contains (f : GeneratedFile) (part : String) : Prop :=
  part.toList <:+: f.content.toList

/-- A file that imports, by lines right below its banner, one for each module. -/
structure GeneratedFile.WritesImports (f : GeneratedFile) (imports : Imports) : Prop where
  modules : ∀ module, module ∈ imports.modules ↔ ∃ i ∈ imports.entries, i.module = module
  names : ∀ module name, name ∈ imports.names module ↔ ⟨module, name⟩ ∈ imports.entries
  content : ∃ rest, f.content = banner ++ "\n\n" ++
    String.join (imports.modules.map fun module =>
      "import \x7b " ++ ", ".intercalate (imports.names module) ++ " \x7d from \"" ++ module ++
        "\";\n") ++ rest

namespace TypeScript

theorem infix_join {part : String} {parts : List String} (h : part ∈ parts) :
    part.toList <:+: (String.join parts).toList := by
  rw [String.toList_join, List.flatMap_def]
  exact List.infix_of_mem_flatten (List.mem_map_of_mem h)

theorem infix_intercalate {part : String} (between : String) {parts : List String}
    (h : part ∈ parts) : part.toList <:+: (between.intercalate parts).toList := by
  induction parts with
  | nil => cases h
  | cons first rest ih =>
      by_cases hrest : rest = []
      · subst hrest
        obtain rfl := List.mem_singleton.mp h
        exact Artifact.infix_of_eq "" "" (by simp)
      · rw [String.intercalate_cons_of_ne_nil hrest]
        rcases List.mem_cons.mp h with rfl | h
        · exact Artifact.infix_append_left (Artifact.infix_append_left (List.infix_refl _))
        · exact Artifact.infix_append_right (ih h)

theorem infix_classText {member : String} (header : String) (statics : List String)
    {members : List String} (h : member ∈ members) :
    member.toList <:+: (classText header statics members).toList :=
  Artifact.infix_append_left (Artifact.infix_append_right (infix_intercalate "\n" h))

/-- The line of a decorator above a property. -/
def decoratorLine (d : Decorator) : String :=
  indentUnit ++ "@" ++ d.name ++ "(" ++ ", ".intercalate (d.arguments.map Argument.text) ++ ")\n"

theorem decoratorLine_eq (d : Decorator) : decoratorLine d = indentUnit ++ d.text ++ "\n" := by
  rw [decoratorLine, Decorator.text, Decorator.call, ← String.toList_inj]
  simp

/-- The line of a property itself. -/
def propertyLine (p : Property) : String :=
  indentUnit ++ p.name ++ (if p.isOptional then "?" else "") ++ ": " ++ p.type.text ++ ";\n"

/-- The lines of a property: its comment, its decorators one by one, and its own line. -/
def propertyLines (p : Property) : String :=
  commentAbove p.documentation indentUnit ++ String.join (p.decorators.map decoratorLine) ++
    propertyLine p

theorem Property.text_eq (p : Property) : p.text = propertyLines p := by
  have hlines : p.decorators.map decoratorLine =
      (p.decorators.map Decorator.text).map fun text => indentUnit ++ text ++ "\n" := by
    rw [List.map_map]
    exact List.map_congr_left fun d _ => decoratorLine_eq d
  rw [propertyLines, propertyLine, hlines, Property.text, propertyText]
  simp only [String.append_assoc]

theorem Property.map_text (properties : List Property) :
    properties.map Property.text = properties.map propertyLines :=
  List.map_congr_left fun p _ => p.text_eq

theorem infix_decoratorLine {p : Property} {d : Decorator} (hd : d ∈ p.decorators) :
    (decoratorLine d).toList <:+: (propertyLines p).toList :=
  Artifact.infix_append_left (Artifact.infix_append_right (infix_join (List.mem_map_of_mem hd)))

end TypeScript

namespace Artifact

/-- The line of a member of the type of a key. -/
def memberLine (name : String) (type : TypeExpr) : String :=
  indentUnit ++ name ++ ": " ++ type.text ++ ";\n"

/-- The lines that declare the type of a key, with one for each member. -/
def keyTypeLines (name : String) (members : List (String × TypeExpr)) : String :=
  "export type " ++ name ++ " = \x7b\n" ++
    String.join (members.map fun member => memberLine member.1 member.2) ++ "\x7d;\n"

theorem KeyType.text_eq (k : KeyType) : k.text = keyTypeLines k.name k.members :=
  rfl

theorem KeyType.memberLine_infix_text {k : KeyType} {member : String × TypeExpr}
    (hmember : member ∈ k.members) :
    (memberLine member.1 member.2).toList <:+: k.text.toList := by
  rw [text_eq, keyTypeLines]
  refine infix_append_left (infix_append_right (infix_join ?_))
  exact List.mem_map_of_mem hmember

/-- A file that declares the type of a key, with a line for each member. -/
structure KeyType.WrittenIn (k : KeyType) (f : GeneratedFile) : Prop where
  text : k.text = keyTypeLines k.name k.members
  contains : f.Contains k.text
  members : ∀ member ∈ k.members, (memberLine member.1 member.2).toList <:+: k.text.toList ∧
    f.Contains (memberLine member.1 member.2)

/-- The text of the type of an entity's key, if it has one. -/
def Entity.keyText (e : Entity) : String :=
  match e.keyType with
  | some key => key.text ++ "\n"
  | none => ""

/-- The text of an entity between its imports and its class. -/
def Entity.opening (e : Entity) : String :=
  e.keyText ++ commentAbove e.documentation ""

/-- The text of the class of an entity, with some properties in it. -/
def Entity.classWith (e : Entity) (properties : List Property) : String :=
  classText ("export class " ++ e.className) e.statics (properties.map Property.text)

/-- The text of an entity behind its class. -/
def Entity.closing (e : Entity) : String :=
  match e.relations with
  | some relations => relations.text e.className
  | none => ""

theorem Entity.text_eq (e : Entity) :
    e.text = e.imports.renderBlock ++ (e.opening ++ e.classWith e.properties ++ e.closing) := by
  have hparts : e.text = e.imports.renderBlock ++ e.keyText ++ commentAbove e.documentation "" ++
      e.classWith e.properties ++ e.closing := rfl
  rw [hparts, opening]
  simp only [String.append_assoc]

/-- The properties that a file writes, in whichever of its classes they stand. -/
def Body.properties : Body → List Property
  | entity file => file.properties ++ (file.relations.map RelationsClass.properties).getD []
  | createDto file => file.properties
  | enumeration _ | service _ | index _ => []

/-- The type of a key that a file declares, if it does. -/
def Body.keyType? : Body → Option KeyType
  | .entity file => file.keyType
  | _ => none

theorem Body.property_infix_text {b : Body} {p : Property} (hp : p ∈ b.properties) :
    p.text.toList <:+: b.text.toList := by
  cases b with
  | enumeration file => cases hp
  | service file => cases hp
  | index file => cases hp
  | createDto file =>
      exact infix_append_right (infix_classText _ _ (List.mem_map_of_mem hp))
  | entity file =>
      show p.text.toList <:+: file.text.toList
      rw [Entity.text]
      rcases List.mem_append.mp hp with hp | hp
      · exact infix_append_left (infix_append_right
          (infix_classText _ _ (List.mem_map_of_mem hp)))
      · refine infix_append_right ?_
        cases hrelations : file.relations with
        | none =>
            rw [hrelations] at hp
            cases hp
        | some r =>
            rw [hrelations] at hp
            have hclass : p.text.toList <:+: (classText ("export class " ++ r.name) []
                (r.properties.map Property.text)).toList :=
              infix_classText _ _ (List.mem_map_of_mem hp)
            refine hclass.trans (infix_of_eq "\n" ("\n" ++ "export type " ++ r.withRelationsType ++
              " = " ++ file.className ++ " & " ++ r.name ++ ";\n") ?_)
            simp only [RelationsClass.text, String.append_assoc]

theorem Body.keyType_infix_text {b : Body} {k : KeyType} (hk : b.keyType? = some k) :
    k.text.toList <:+: b.text.toList := by
  cases b with
  | enumeration file => cases hk
  | createDto file => cases hk
  | service file => cases hk
  | index file => cases hk
  | entity file =>
      have hkey : file.keyType = some k := hk
      show k.text.toList <:+: file.text.toList
      rw [Entity.text, hkey]
      refine infix_append_left (infix_append_left (infix_append_left (infix_append_right ?_)))
      exact infix_append_left (List.infix_refl _)

theorem prefix_append {part s t : String} (h : part.toList <+: s.toList) :
    part.toList <+: (s ++ t).toList := by
  rw [String.toList_append]
  exact h.trans (List.prefix_append _ _)

/-- A text begins with its imports. -/
theorem Body.imports_prefix_text (b : Body) : b.imports.render.toList <+: b.text.toList := by
  have hblock : ∀ imports : Imports, imports.render.toList <+: imports.renderBlock.toList := by
    intro imports
    rw [Imports.renderBlock]
    split
    · next hempty =>
        obtain ⟨_ | _⟩ := imports
        · exact List.prefix_refl _
        · cases hempty
    · exact prefix_append (List.prefix_refl _)
  cases b with
  | enumeration file => exact List.nil_prefix
  | index file => exact List.nil_prefix
  | createDto file => exact prefix_append (hblock _)
  | service file =>
      show file.imports.render.toList <+: file.text.toList
      unfold Service.text
      iterate 7 refine prefix_append ?_
      exact List.prefix_refl _
  | entity file =>
      show file.imports.render.toList <+: file.text.toList
      unfold Entity.text
      iterate 4 refine prefix_append ?_
      exact hblock _

end Artifact

/-- The line of every module that a file imports from stands in it. -/
theorem GeneratedFile.WritesImports.contains_line {f : GeneratedFile} {imports : Imports}
    (h : f.WritesImports imports) {module : String} (hmodule : module ∈ imports.modules) :
    f.Contains ("import \x7b " ++ ", ".intercalate (imports.names module) ++ " \x7d from \"" ++
      module ++ "\";\n") := by
  obtain ⟨rest, hcontent⟩ := h.content
  rw [Contains, hcontent]
  refine Artifact.infix_append_left (Artifact.infix_append_right (infix_join ?_))
  exact List.mem_map.mpr ⟨module, hmodule, rfl⟩

theorem Artifact.holds_toFile (a : Artifact) : a.toFile.Holds a :=
  ⟨rfl, rfl, rfl⟩

namespace GeneratedFile.Holds

open Artifact

variable {f : GeneratedFile} {a : Artifact}

theorem contains (h : f.Holds a) {part : String} (hpart : part.toList <:+: a.body.text.toList) :
    f.Contains part := by
  rw [Contains, h.content]
  exact infix_append_right hpart

theorem writesImports (h : f.Holds a) : f.WritesImports a.body.imports where
  modules _ := Imports.mem_modules
  names _ _ := Imports.mem_names
  content := by
    obtain ⟨rest, hrest⟩ := a.body.imports_prefix_text
    refine ⟨.ofList rest, ?_⟩
    have htext : a.body.text = a.body.imports.render ++ .ofList rest := by
      rw [← String.toList_inj, String.toList_append, String.toList_ofList, hrest]
    rw [h.content, htext, ← String.append_assoc]
    rfl

theorem contains_header (h : f.Holds a) {d : Declaration} (hd : d ∈ a.body.declarations) :
    f.Contains d.header :=
  h.contains (Body.header_infix_text hd)

theorem contains_property (h : f.Holds a) {p : Property} (hp : p ∈ a.body.properties) :
    f.Contains (propertyLines p) :=
  h.contains (p.text_eq ▸ Body.property_infix_text hp)

theorem writesKeyType (h : f.Holds a) {k : KeyType} (hk : a.body.keyType? = some k) :
    k.WrittenIn f where
  text := k.text_eq
  contains := h.contains (Body.keyType_infix_text hk)
  members _ hmember := ⟨KeyType.memberLine_infix_text hmember,
    h.contains ((KeyType.memberLine_infix_text hmember).trans (Body.keyType_infix_text hk))⟩

end GeneratedFile.Holds

namespace Generates

variable {options : Options} {config : Config} {env : Environment} {workingDirectory : Path}
  {c : Context} {tree : List Artifact} {out : Output}

/-- Every file of a run has an artifact behind it. -/
theorem exists_artifact (h : Generates options config env workingDirectory c tree out)
    {f : GeneratedFile} (hf : f ∈ out.files) : ∃ a ∈ tree, f.Holds a := by
  rw [h.files] at hf
  obtain ⟨a, ha, rfl⟩ := List.mem_map.mp hf
  exact ⟨a, ha, a.holds_toFile⟩

/-- Every artifact is handed over. -/
theorem exists_file (h : Generates options config env workingDirectory c tree out)
    {a : Artifact} (ha : a ∈ tree) : ∃ f, out.HandsOver a f :=
  ⟨a.toFile, h.filesAt_path ha, a.holds_toFile⟩

theorem eq_of_path_eq (h : Generates options config env workingDirectory c tree out)
    {a b : Artifact} (ha : a ∈ tree) (hb : b ∈ tree) (hpath : a.path = b.path) : a = b := by
  have hplaces : (tree.map fun a => a.path.components).Pairwise SideBySide := by
    have hfiles := h.pairwise_components
    rwa [h.files, List.map_map] at hfiles
  have hnodup := List.nodup_iff_pairwise_ne.mpr (hplaces.imp SideBySide.ne)
  exact List.inj_on_of_nodup_map hnodup ha hb (congrArg Path.components hpath)

/-- What holds of the artifact at a path can be computed from the document, and is then known
of whatever artifact is behind the file there. -/
theorem exists_file_of_any (h : Generates options config env workingDirectory c tree out)
    (place : Path) {p : Artifact.Body → Bool}
    (hany : ((Context.ofOptions options config env workingDirectory).bind fun c =>
      (Artifact.project c).map fun tree => tree.any fun a =>
        decide (a.path = place) && p a.body).toOption = some true) :
    ∃ f, out.filesAt place = [f] ∧ f.path = place ∧
      ∀ a ∈ tree, f.Holds a → p a.body = true := by
  obtain ⟨a, ha, hcheck⟩ := h.exists_of_any hany
  rw [Bool.and_eq_true, decide_eq_true_eq] at hcheck
  obtain ⟨rfl, hbody⟩ := hcheck
  obtain ⟨f, hf⟩ := h.exists_file ha
  refine ⟨f, hf.alone, hf.holds.path, fun b hb hother => ?_⟩
  rw [h.eq_of_path_eq hb ha (hother.path.symm.trans hf.holds.path)]
  exact hbody

end Generates

end Scaffold
