import Scaffold.Proofs.Contents

/-!
# Runs fail only in their checks

A run looks at a document three times before it makes a file: the data model is
validated, the client of the database is placed, the names are spelled. Whatever
passes all three is generated. Every look-up behind them asks for something that one
of the three has found before, and this file follows the converters one by one to
see it.

The type of a key has a fall-back for a field without a type. It is not reached
either: the fields of a key are fields of the model, and each of these has its type
by the time the key is written.
-/

namespace Scaffold

open Document (Environment Options)
open Naming (Name)
open Schema
open TypeScript

/-- A context that passed the checks of a run. -/
structure Context.Checked (c : Context) : Prop where
  named : c.WellNamed
  sound : c.datamodel.Sound
  client : ∃ path, c.clientImportPath = .ok path

namespace Artifact

variable {c : Context} {m : NamedModel}

theorem exists_typedFields (h : c.Checked) (hm : m ∈ c.namedModels) :
    ∃ typed, typedFields c m.model = .ok typed := by
  refine exists_mapM_eq_ok fun f hf => ?_
  obtain ⟨t, ht⟩ := exists_ofField h.named m.model.name
    (h.sound.types m.model (h.named.model_mem hm) f hf)
  exact ⟨⟨f, t⟩, map_eq_ok.mpr ⟨t, ht, rfl⟩⟩

theorem exists_entity (h : c.Checked) (hm : m ∈ c.namedModels) :
    ∃ e, Entity.ofModel c m = .ok e := by
  have hsound := h.sound.models m.model (h.named.model_mem hm)
  obtain ⟨path, hclient⟩ := h.client
  obtain ⟨key, hkey⟩ := hsound.key
  obtain ⟨typed, htyped⟩ := exists_typedFields h hm
  obtain ⟨typeImports, himports⟩ : ∃ typeImports,
      typed.mapM (fun t => entityImport? c m t.type) = .ok typeImports :=
    exists_mapM_eq_ok fun t _ => exists_entityImport? hclient t.type
  exact ⟨_, entity_ofModel_eq_ok.mpr
    ⟨key, hkey, hsound.uniqueIndexes, typed, htyped, typeImports, himports, rfl⟩⟩

theorem exists_createDto (h : c.Checked) (hm : m ∈ c.namedModels) :
    ∃ d, CreateDto.ofModel c m = .ok d := by
  obtain ⟨path, hclient⟩ := h.client
  obtain ⟨fields, hfields⟩ : ∃ fields, m.createFields.mapM (dtoField c m.model.name) =
      .ok fields := by
    refine exists_mapM_eq_ok fun f hf => ?_
    obtain ⟨t, ht⟩ := exists_ofField h.named m.model.name
      (h.sound.types m.model (h.named.model_mem hm) f (mem_createFields.mp hf).1)
    obtain ⟨i, hi⟩ := exists_dtoImport? hclient t
    exact ⟨(i, dtoProperty c f t), dtoField_eq_ok.mpr ⟨t, ht, hi, rfl⟩⟩
  exact ⟨_, createDto_ofModel_eq_ok.mpr ⟨fields, hfields, rfl⟩⟩

theorem exists_service (h : c.Checked) (hm : m ∈ c.namedModels) :
    ∃ s, Service.ofModel c m = .ok s := by
  obtain ⟨path, hclient⟩ := h.client
  obtain ⟨key, hkey⟩ := (h.sound.models m.model (h.named.model_mem hm)).key
  exact ⟨_, service_ofModel_eq_ok.mpr ⟨path, hclient, key, hkey, rfl⟩⟩

theorem exists_project (h : c.Checked) : ∃ tree, project c = .ok tree := by
  obtain ⟨modelFiles, hfiles⟩ : ∃ modelFiles, c.namedModels.mapM (ofModel c) =
      .ok modelFiles := by
    refine exists_mapM_eq_ok fun m hm => ?_
    obtain ⟨e, he⟩ := exists_entity h hm
    obtain ⟨d, hd⟩ := exists_createDto h hm
    obtain ⟨s, hs⟩ := exists_service h hm
    exact ⟨_, ofModel_eq_ok.mpr ⟨e, he, d, hd, s, hs, rfl⟩⟩
  exact ⟨_, (project_eq_ok h.named).mpr ⟨modelFiles, hfiles, rfl⟩⟩

theorem head?_base (h : c.WellNamed) {kind : Kind} {r : Reference} (hr : Reference.Of c kind r) :
    ∃ first, r.base.toList.head? = some first ∧ first ≠ 'u' := by
  have hpascal : ∀ {n : Name} (after : String), n.WellSpelled →
      ∃ first, (n.pascal ++ after).toList.head? = some first ∧ first ≠ 'u' := by
    intro n after hn
    obtain ⟨first, rest, hfirst, hlower⟩ := hn.pascal_head
    refine ⟨first, by rw [String.toList_append, hfirst]; rfl, ?_⟩
    rintro rfl
    cases hlower
  cases hr with
  | @scalar type => cases type <;> exact ⟨_, rfl, by decide⟩
  | @enumeration n hn =>
      have hbase := hpascal "" (h.enums.wellSpelled hn)
      rwa [String.append_empty] at hbase
  | entity hn hmodel => exact hpascal "Base" (h.models.wellSpelled hn)
  | object => exact ⟨'R', rfl, by decide⟩

/-- A character that stands between the parts of the line of a member. -/
inductive IsTypeSign : Char → Prop
  | list : IsTypeSign '['
  | null : IsTypeSign '|'
  | member : IsTypeSign ':'

/-- A base is put together from names, and from brackets and points of other kinds. -/
theorem not_mem_base (h : c.WellNamed) {kind : Kind} {r : Reference} (hr : Reference.Of c kind r)
    {x : Char} (hx : IsTypeSign x) : x ∉ r.base.toList := by
  have hname : ∀ {n : Name}, n.WellSpelled → x ∉ n.pascal.toList := by
    intro n hn hmem
    have halphanum := hn.pascal_alphanum x hmem
    cases hx <;> exact absurd halphanum (by decide)
  cases hr with
  | @scalar type => cases type <;> cases hx <;> decide
  | object => cases hx <;> decide
  | enumeration hn => exact hname (h.enums.wellSpelled hn)
  | entity hn hmodel =>
      have hending : x ∉ "Base".toList := by
        cases hx <;> decide
      rw [Reference.base, entityClassOf, String.toList_append, List.mem_append, not_or]
      exact ⟨hname (h.models.wellSpelled hn), hending⟩

theorem colon_not_mem_text_typeExpr (h : c.WellNamed) {model : String} {f : Field} {t : FieldType}
    (ht : FieldType.ofField c model f = .ok t) : ':' ∉ t.typeExpr.text.toList := by
  have hbase := not_mem_base h ((ofField_eq_ok h).mp ht).1 .member
  rw [TypeExpr.text, FieldType.typeExpr]
  cases t.isList <;> cases t.nullable <;> simp [hbase]

theorem text_typeExpr_ne_unknown (h : c.WellNamed) {model : String} {f : Field} {t : FieldType}
    (ht : FieldType.ofField c model f = .ok t) : t.typeExpr.text ≠ "unknown" := by
  obtain ⟨first, hfirst, hne⟩ := head?_base h ((ofField_eq_ok h).mp ht).1
  intro heq
  have hhead : t.typeExpr.text.toList.head? = some first := by
    rw [TypeExpr.text, String.toList_append, String.toList_append, List.append_assoc,
      List.head?_append, FieldType.typeExpr, hfirst]
    rfl
  rw [heq] at hhead
  exact hne (Option.some.inj hhead).symm

theorem reverse_takeWhile_colon (front : List Char) {text : String} (h : ':' ∉ text.toList) :
    (front ++ ':' :: ' ' :: text.toList).reverse.takeWhile (· ≠ ':') =
      (' ' :: text.toList).reverse := by
  have hbehind : ∀ x ∈ (' ' :: text.toList).reverse, decide (x ≠ ':') = true := by
    intro x hx
    rw [decide_eq_true_eq]
    rintro rfl
    rcases List.mem_cons.mp (List.mem_reverse.mp hx) with hblank | hmem
    · exact absurd hblank (by decide)
    · exact h hmem
  rw [List.reverse_append, List.reverse_cons, List.append_assoc,
    List.takeWhile_append_of_pos hbehind]
  simp

/-- What stands behind the last colon in the line of a member is its type. -/
theorem text_eq_of_suffix_memberLine {name text : String} {type : TypeExpr}
    (htext : ':' ∉ text.toList) (htype : ':' ∉ type.text.toList)
    (h : (": " ++ text ++ ";\n").toList <:+ (memberLine name type).toList) : type.text = text := by
  obtain ⟨front, hfront⟩ := h
  have hline : front ++ ':' :: ' ' :: text.toList =
      (indentUnit ++ name).toList ++ ':' :: ' ' :: type.text.toList := by
    refine (List.append_left_inj ";\n".toList).mp ?_
    simpa [memberLine] using hfront
  have hreverse := congrArg (fun line => line.reverse.takeWhile (· ≠ ':')) hline
  rw [reverse_takeWhile_colon _ htext, reverse_takeWhile_colon _ htype] at hreverse
  have hsame := List.reverse_injective hreverse
  exact (String.toList_inj.mp (List.cons.inj hsame).2).symm

/-- A line of a member that gives an unknown type. -/
def IsUnknownLine (line : String) : Prop :=
  ": unknown;\n".toList <:+ line.toList

/-- No member of the type of a key has an unknown type. -/
theorem known_keyType (h : c.WellNamed) {a : Artifact} (ha : OfContext c a) {k : KeyType}
    (hk : a.body.keyType? = some k) :
    ∀ member ∈ k.members, member.2.text ≠ "unknown" ∧
      ¬ IsUnknownLine (memberLine member.1 member.2) := by
  cases ha with
  | enumeration hmem => cases hk
  | createDto hm hd => cases hk
  | service hm hs => cases hk
  | modelIndex hm hindex => cases hk
  | enumIndex hindex hsome => cases hk
  | entity hm he =>
      obtain ⟨key, hkey, -, typed, htyped, typeImports, -, rfl⟩ := entity_ofModel_eq_ok.mp he
      obtain ⟨key, rfl, rfl⟩ := Option.map_eq_some_iff.mp hk
      intro member hmember
      obtain ⟨t, ht, rfl⟩ := exists_of_mem_keyMembers hkey htyped member hmember
      have htype := ((mem_typedFields htyped).mp ht).2
      have hknown := text_typeExpr_ne_unknown h htype
      refine ⟨hknown, fun hline => hknown ?_⟩
      exact text_eq_of_suffix_memberLine (by decide) (colon_not_mem_text_typeExpr h htype) hline

end Artifact

theorem exists_warningsOf {d : Datamodel} (h : d.Sound) :
    ∃ warnings, warningsOf d = .ok warnings := by
  obtain ⟨keys, hkeys⟩ : ∃ keys, (d.models.mapM fun m => m.key.map fun key => (m, key)) =
      .ok keys := by
    refine exists_mapM_eq_ok fun m hm => ?_
    obtain ⟨key, hkey⟩ := (h.models m hm).key
    exact ⟨(m, key), map_eq_ok.mpr ⟨key, hkey, rfl⟩⟩
  exact ⟨_, bind_eq_ok.mpr ⟨keys, hkeys, rfl⟩⟩

/-- A run ends with the error of the first check that fails. If none does it ends with
files, and in every file that declares the type of a key each member has a line, and one
that does not say that its type is unknown. -/
theorem generate_outcome (options : Options) (config : Config) (env : Environment)
    (workingDirectory : Path) :
    match options.datamodel.validate, ClientPaths.resolve options env workingDirectory,
      Context.ofDatamodel options.datamodel config with
    | .error e, _, _ => generate options config env workingDirectory = .error e
    | .ok _, .error e, _ => generate options config env workingDirectory = .error e
    | .ok _, .ok _, .error e => generate options config env workingDirectory = .error e
    | .ok _, .ok paths, .ok c =>
      ∃ out tree, generate options config env workingDirectory = .ok out ∧
        Generates options config env workingDirectory { c with clientPaths := some paths } tree
          out ∧
        ∀ f ∈ out.files, ∃ a ∈ tree, f.Holds a ∧ ∀ k, a.body.keyType? = some k →
          k.WrittenIn f ∧ ∀ member ∈ k.members, member.2.text ≠ "unknown" ∧
            ¬ Artifact.IsUnknownLine (Artifact.memberLine member.1 member.2) := by
  cases hvalid : options.datamodel.validate with
  | error e =>
      rw [generate, hvalid]
      rfl
  | ok _ =>
      cases hpaths : ClientPaths.resolve options env workingDirectory with
      | error e =>
          rw [generate, hvalid, Context.ofOptions, hpaths]
          rfl
      | ok paths =>
          cases hcontext : Context.ofDatamodel options.datamodel config with
          | error e =>
              rw [generate, hvalid, Context.ofOptions, hpaths, hcontext]
              rfl
          | ok c =>
              have hsound := Datamodel.validate_eq_ok_iff.mp hvalid
              obtain ⟨warnings, hwarnings⟩ := exists_warningsOf hsound
              have hplaced : Context.ofOptions options config env workingDirectory =
                  .ok { c with clientPaths := some paths } :=
                Context.ofOptions_eq_ok.mpr ⟨paths, hpaths, c, hcontext, rfl⟩
              obtain ⟨hdatamodel, -, hnamed, -⟩ := Context.ofOptions_spec hplaced
              obtain ⟨tree, htree⟩ := Artifact.exists_project
                (c := { c with clientPaths := some paths })
                ⟨hnamed, hdatamodel ▸ hsound, paths.importPath, rfl⟩
              have hrun : generate options config env workingDirectory = .ok
                  ⟨tree.map Artifact.toFile, warnings⟩ :=
                generate_eq_ok.mpr ⟨hvalid, _, hplaced, tree, htree, warnings, hwarnings, rfl⟩
              have hgenerates : Generates options config env workingDirectory
                  { c with clientPaths := some paths } tree ⟨tree.map Artifact.toFile, warnings⟩ :=
                ⟨hvalid, hplaced, htree, rfl⟩
              refine ⟨_, tree, hrun, hgenerates, fun f hf => ?_⟩
              obtain ⟨a, ha, hholds⟩ := hgenerates.exists_artifact hf
              refine ⟨a, ha, hholds, fun k hk => ⟨hholds.writesKeyType hk, ?_⟩⟩
              exact Artifact.known_keyType hnamed (hgenerates.mem_tree_iff.mp ha) hk

end Scaffold
