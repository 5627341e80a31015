import Scaffold.Proofs.Atomicity
import Scaffold.Proofs.Places

/-!
# What a run leaves on disk

A run generates files and writes them. That it handed over an output means that every
task of the write came to its end without a failure, so none was skipped, and then there
is one tree that the write can have left: the files stand where they belong, the
directories on the way to them are there, and everything else is as it was. The order in
which the tasks moved has no part in it.

The two things that can go wrong with destinations do not happen here. Generated files
have places of their own, and their names begin with a letter, which the name of a
temporary file never does.
-/

namespace Scaffold

open Document (Environment Options)
open Naming (Name)
open Scaffold.Path (IsPlainName)

theorem head?_temporaryName (letters : String) :
    (temporaryName letters).toList.head? = some '.' := by
  rw [temporaryName, String.toList_append]
  rfl

theorem some_ne_temporaryName {s : String} (hs : s.toList.head? ≠ some '.') (letters : String) :
    some s ≠ some (temporaryName letters) := by
  intro heq
  rw [Option.some.inj heq] at hs
  exact hs (head?_temporaryName letters)

theorem head?_append_ne_dot {spelling : String} (hne : spelling.toList ≠ [])
    (halnum : ∀ c ∈ spelling.toList, c.isAlphanum = true) (after : String) :
    (spelling ++ after).toList.head? ≠ some '.' := by
  obtain ⟨c, rest, hc⟩ := List.exists_cons_of_ne_nil hne
  rw [String.toList_append, hc, List.cons_append, List.head?_cons]
  intro heq
  have hdot := halnum '.' (by rw [hc, Option.some.inj heq]; exact List.mem_cons_self)
  cases hdot

theorem Context.WellNamed.getLast?_ne_temporaryName {c : Context} (h : c.WellNamed)
    {p : List String} (hp : p ∈ c.places) (letters : String) :
    p.getLast? ≠ some (temporaryName letters) := by
  have hindex : some "index.ts" ≠ some (temporaryName letters) :=
    some_ne_temporaryName (by decide) letters
  rcases List.mem_append.mp hp with hp | hp
  · rcases List.mem_append.mp hp with hp | hp
    · obtain ⟨n, hn, rfl⟩ := List.mem_map.mp hp
      have hspelled := h.wellSpelled_enum hn
      exact some_ne_temporaryName
        (head?_append_ne_dot hspelled.pascal_ne_nil hspelled.pascal_alphanum _) letters
    · obtain ⟨n, hn, hp⟩ := List.mem_flatMap.mp hp
      have hspelled := h.wellSpelled_model hn
      rcases Name.eq_of_mem_modelPlaces hp with rfl | rfl | rfl | rfl
      · exact some_ne_temporaryName
          (head?_append_ne_dot hspelled.pascal_ne_nil hspelled.pascal_alphanum _) letters
      · have hcreate : ("Create-" ++ n.pascal ++ ".dto.ts").toList.head? ≠ some '.' := by
          rw [String.toList_append, String.toList_append]
          exact (by decide : some 'C' ≠ some '.')
        exact some_ne_temporaryName hcreate letters
      · exact some_ne_temporaryName
          (head?_append_ne_dot hspelled.camel_ne_nil hspelled.camel_alphanum _) letters
      · exact hindex
  · split at hp
    · rw [List.mem_singleton.mp hp]
      exact hindex
    · cases hp

theorem place_join {workingDirectory : Location} {root : Path} {names : List String}
    (hne : names ≠ []) (hplain : ∀ s ∈ names, IsPlainName s) :
    (root.join (Path.ofNames names)).place workingDirectory =
      root.place workingDirectory ++ names := by
  rw [Path.place, Path.components_join hne hplain, Path.descend_append, Path.descend_names]
  rfl

namespace Generates

variable {options : Options} {config : Config} {env : Environment} {workingPath : Path}
  {c : Context} {artifacts : List Artifact} {out : Output}

theorem map_place_files (h : Generates options config env workingPath c artifacts out)
    (workingDirectory : Location) (root : Path) :
    out.files.map (GeneratedFile.place workingDirectory root) =
      c.places.map (root.place workingDirectory ++ ·) := by
  have hplaces : out.files.map (GeneratedFile.place workingDirectory root) =
      (out.files.map GeneratedFile.path).map fun p => (root.join p).place workingDirectory := by
    rw [List.map_map]
    rfl
  rw [hplaces, h.map_path_files, List.map_map]
  refine List.map_congr_left fun names hnames => ?_
  obtain ⟨hne, hplain⟩ := h.wellNamed.isPlainName_of_mem_places hnames
  exact place_join hne hplain

theorem nodup_place_files (h : Generates options config env workingPath c artifacts out)
    (workingDirectory : Location) (root : Path) :
    (out.files.map (GeneratedFile.place workingDirectory root)).Nodup := by
  rw [h.map_place_files, List.nodup_iff_pairwise_ne, List.pairwise_map]
  refine h.wellNamed.pairwise_places.imp fun {p q} hpq heq => ?_
  exact hpq.ne (List.append_cancel_left heq)

theorem spares (h : Generates options config env workingPath c artifacts out)
    (workingDirectory : Location) (root : Path) (m : Move) :
    m.Spares (out.files.map (GeneratedFile.place workingDirectory root)) := by
  intro letters _ place hplace
  rw [h.map_place_files] at hplace
  obtain ⟨names, hnames, rfl⟩ := List.mem_map.mp hplace
  rw [List.getLast?_append_of_ne_nil _ (h.wellNamed.isPlainName_of_mem_places hnames).1]
  exact h.wellNamed.getLast?_ne_temporaryName hnames letters

end Generates

/-- A tree in which files stand below a root, and which differs from another one by them
and by directories on the way to them only. -/
structure Delivered (workingDirectory : Location) (before : FileTree) (root : Path)
    (files : List GeneratedFile) (after : FileTree) : Prop where
  found : ∀ f ∈ files,
    after.resolve workingDirectory (root.join f.path) = .ok (f.place workingDirectory root) ∧
      after.find? (f.place workingDirectory root) = some (.file f.content)
  others : ∀ l, (∀ f ∈ files, f.place workingDirectory root ≠ l) →
    after.find? l = before.find? l ∨
      (before.find? l = none ∧ after.find? l = some .directory ∧
        ∃ f ∈ files, (root.join f.path).LeadsThrough workingDirectory l)

namespace Delivered

variable {workingDirectory : Location} {before after after' : FileTree} {root : Path}
  {files : List GeneratedFile}

theorem read (h : Delivered workingDirectory before root files after) {f : GeneratedFile}
    (hf : f ∈ files) : after.read workingDirectory (root.join f.path) = .ok f.content := by
  obtain ⟨hresolve, hfind⟩ := h.found f hf
  rw [FileTree.read, FileTree.lookup, hresolve]
  simp only [bind, Except.bind, hfind]
  rfl

/-- There is one such tree. -/
theorem find?_eq (h : Delivered workingDirectory before root files after)
    (h' : Delivered workingDirectory before root files after') (l : Location) :
    after.find? l = after'.find? l := by
  by_cases hplace : ∃ f ∈ files, f.place workingDirectory root = l
  · obtain ⟨f, hf, rfl⟩ := hplace
    rw [(h.found f hf).2, (h'.found f hf).2]
  have hother : ∀ f ∈ files, f.place workingDirectory root ≠ l := by
    intro f hf heq
    exact hplace ⟨f, hf, heq⟩
  by_cases hway : ∃ f ∈ files, (root.join f.path).LeadsThrough workingDirectory l
  · obtain ⟨f, hf, hthrough⟩ := hway
    rw [(FileTree.resolve_eq_ok (h.found f hf).1).2 l hthrough,
      (FileTree.resolve_eq_ok (h'.found f hf).1).2 l hthrough]
  · have hsame : after.find? l = before.find? l := by
      rcases h.others l hother with hsame | ⟨-, -, hthrough⟩
      · exact hsame
      · exact absurd hthrough hway
    have hsame' : after'.find? l = before.find? l := by
      rcases h'.others l hother with hsame | ⟨-, -, hthrough⟩
      · exact hsame
      · exact absurd hthrough hway
    rw [hsame, hsame']

end Delivered

/-- A write in which every task has written its file has delivered the files. -/
theorem WriteRun.Whole.delivered {workingDirectory : Location} {tree : FileTree} {root : Path}
    {files : List GeneratedFile} {run : WriteRun}
    (h : run.Whole workingDirectory (writeTasks root files))
    (hsound : run.Sound workingDirectory (writeTasks root files) tree)
    (hwritten : ∀ task ∈ run.tasks, task.stage = .written) :
    Delivered workingDirectory tree root files run.tree := by
  constructor
  · intro f hf
    have hplanned : WriteTask.start (root.join f.path) f.content ∈
        run.tasks.map (WriteTask.withStage · .waiting) := by
      rw [hsound.planned]
      exact List.mem_map_of_mem hf
    obtain ⟨task, htask, heq⟩ := List.mem_map.mp hplanned
    obtain ⟨i, hi⟩ := List.mem_iff_getElem?.mp htask
    have hdestination : task.destination = root.join f.path := congrArg WriteTask.destination heq
    have hcontent : task.content = f.content := congrArg WriteTask.content heq
    have hresolved := (hsound.finds hi).resolved (hwritten task htask)
    have hfound := (h.whole hi).written (hwritten task htask)
    rw [WriteTask.place, hdestination] at hresolved hfound
    rw [hcontent] at hfound
    exact ⟨hresolved, hfound⟩
  · intro l hother
    rcases hsound.accounted l with
      hsame | ⟨hnone, hdirectory, hway⟩ | ⟨-, i, task, hi, htemporary | ⟨-, hplace⟩⟩
    · exact .inl hsame
    · obtain ⟨other, hmem, hthrough⟩ := hway
      obtain ⟨f, hf, rfl⟩ := List.mem_map.mp hmem
      exact .inr ⟨hnone, hdirectory, f, hf, hthrough⟩
    · rw [hwritten task (List.mem_of_getElem? hi)] at htemporary
      cases htemporary
    · obtain ⟨f, hf, hfplace, -⟩ := hsound.exists_file hi
      exact absurd (hfplace.trans hplace) (hother f (List.mem_of_getElem? hf))

section

variable {moves : List Move} {tree after : FileTree} {workingDirectory : Location}
  {options : Options} {config : Config} {env : Environment} {workingPath : Path} {out : Output}

/-- Nothing is written unless files were generated and are to be written. -/
theorem generateAndWriteBy_fst
    (h : (∃ e, generate options config env workingPath = .error e) ∨ config.dryRun = true) :
    (generateAndWriteBy moves tree workingDirectory options config env workingPath).1 =
      tree := by
  rw [generateAndWriteBy]
  split
  · rfl
  next output houtput =>
    rcases h with ⟨e, he⟩ | hdry
    · rw [houtput] at he
      cases he
    · rw [if_pos hdry]

/-- A run that wrote and handed over an output has one behind it that answered. -/
theorem answer?_of_generateAndWriteBy (hdry : config.dryRun = false)
    (h : generateAndWriteBy moves tree workingDirectory options config env workingPath =
      (after, some (.ok out))) :
    generate options config env workingPath = .ok out ∧
      after = ((WriteRun.ofFiles tree config.outputDir out.files).play workingDirectory moves).tree ∧
      ∃ paths, ((WriteRun.ofFiles tree config.outputDir out.files).play workingDirectory
        moves).answer? = some (.ok paths) := by
  rw [generateAndWriteBy] at h
  split at h
  · cases (Prod.mk.inj h).2
  next output houtput =>
    rw [if_neg (by rw [hdry]; exact Bool.false_ne_true)] at h
    obtain ⟨rfl, hanswer⟩ := Prod.mk.inj h
    obtain ⟨answer, hsome, hok⟩ := Option.map_eq_some_iff.mp hanswer
    obtain ⟨paths, rfl, rfl⟩ := map_eq_ok.mp hok
    exact ⟨houtput, rfl, paths, hsome⟩

theorem delivered_of_generateAndWriteBy (hdry : config.dryRun = false)
    (h : generateAndWriteBy moves tree workingDirectory options config env workingPath =
      (after, some (.ok out))) :
    (∀ task ∈ ((WriteRun.ofFiles tree config.outputDir out.files).play workingDirectory
        moves).tasks, task.stage = .written) ∧
      Delivered workingDirectory tree config.outputDir out.files after := by
  obtain ⟨hgenerate, rfl, paths, hanswer⟩ := answer?_of_generateAndWriteBy hdry h
  obtain ⟨c, artifacts, hrun⟩ := exists_generates hgenerate
  have hwritten : ∀ task ∈ ((WriteRun.ofFiles tree config.outputDir out.files).play
      workingDirectory moves).tasks, task.stage = .written :=
    fun task htask => ((WriteRun.faithful_ofFiles tree _ _).play moves).written_of_ok hanswer htask
  have hwhole : ((WriteRun.ofFiles tree config.outputDir out.files).play workingDirectory
      moves).Whole workingDirectory (writeTasks config.outputDir out.files) :=
    WriteRun.whole_play_ofFiles tree (hrun.nodup_place_files workingDirectory config.outputDir)
      fun m _ => hrun.spares workingDirectory config.outputDir m
  have hsound := (WriteRun.sound_ofFiles workingDirectory tree config.outputDir out.files).play moves
  exact ⟨hwritten, hwhole.delivered hsound hwritten⟩

/-- The run that takes the tasks in turn is one of them. -/
theorem exists_moves_generateAndWrite (tree : FileTree) (workingDirectory : Location)
    (options : Options) (config : Config) (env : Environment) (workingPath : Path) :
    ∃ moves, generateAndWriteBy moves tree workingDirectory options config env workingPath =
      ((generateAndWrite tree workingDirectory options config env workingPath).1,
        some (generateAndWrite tree workingDirectory options config env workingPath).2) := by
  cases hgenerate : generate options config env workingPath with
  | error e =>
      refine ⟨[], ?_⟩
      rw [generateAndWriteBy, generateAndWrite, hgenerate]
  | ok output =>
      cases hdry : config.dryRun with
      | true =>
          refine ⟨[], ?_⟩
          simp only [generateAndWriteBy, generateAndWrite, hgenerate, hdry, if_true]
      | false =>
          let run := WriteRun.ofFiles tree config.outputDir output.files
          have hfaithful : run.Faithful := WriteRun.faithful_ofFiles tree _ _
          obtain ⟨moves, hmoves⟩ := WriteRun.leadsTo_inTurn workingDirectory run
          have hanswered : (run.play workingDirectory moves).hasAnswered = true := by
            rw [← hmoves]
            exact hfaithful.inTurn.2
          refine ⟨moves, ?_⟩
          have hanswer : (run.play workingDirectory moves).answer? =
              some (run.play workingDirectory moves).answer := if_pos hanswered
          simp only [generateAndWriteBy, generateAndWrite, hgenerate, hdry, Bool.false_eq_true,
            if_false, writeAll]
          rw [show WriteRun.ofFiles tree config.outputDir output.files = run from rfl, hmoves,
            hanswer]
          cases (run.play workingDirectory moves).answer with
          | error e => rfl
          | ok paths => rfl

end

/-- However the tasks of a run move and in whatever order their ends are collected: a run
that hands over an output has skipped no write and left the one tree in which the files
stand where they belong and nothing else has changed but for directories on the way to
them. A run without files to write leaves the tree as it was. The run that takes the tasks in
turn, which is the one of the program, is one of these. -/
theorem generateAndWriteBy_delivers (moves : List Move) (tree : FileTree)
    (workingDirectory : Location) (options : Options) (config : Config) (env : Environment)
    (workingPath : Path) :
    ((∃ e, generate options config env workingPath = .error e) ∨ config.dryRun = true →
      (generateAndWriteBy moves tree workingDirectory options config env workingPath).1 = tree) ∧
    (config.dryRun = false → ∀ after out,
      generateAndWriteBy moves tree workingDirectory options config env workingPath =
        (after, some (.ok out)) →
      generate options config env workingPath = .ok out ∧
      (∀ task ∈ ((WriteRun.ofFiles tree config.outputDir out.files).play workingDirectory
        moves).tasks, task.stage = .written) ∧
      (∀ f ∈ out.files,
        after.read workingDirectory (config.outputDir.join f.path) = .ok f.content ∧
          after.find? (f.place workingDirectory config.outputDir) = some (.file f.content)) ∧
      (∀ l, (∀ f ∈ out.files, f.place workingDirectory config.outputDir ≠ l) →
        after.find? l = tree.find? l ∨
          (tree.find? l = none ∧ after.find? l = some .directory ∧
            ∃ f ∈ out.files, (config.outputDir.join f.path).LeadsThrough workingDirectory l)) ∧
      ∀ moves' after' out',
        generateAndWriteBy moves' tree workingDirectory options config env workingPath =
          (after', some (.ok out')) →
        ∀ l, after'.find? l = after.find? l) ∧
    ∃ inTurn, generateAndWriteBy inTurn tree workingDirectory options config env workingPath =
      ((generateAndWrite tree workingDirectory options config env workingPath).1,
        some (generateAndWrite tree workingDirectory options config env workingPath).2) := by
  refine ⟨generateAndWriteBy_fst, fun hdry after out h => ?_,
    exists_moves_generateAndWrite tree workingDirectory options config env workingPath⟩
  have hgenerate := (answer?_of_generateAndWriteBy hdry h).1
  obtain ⟨hwritten, hdelivered⟩ := delivered_of_generateAndWriteBy hdry h
  refine ⟨hgenerate, hwritten, fun f hf => ⟨hdelivered.read hf, (hdelivered.found f hf).2⟩,
    hdelivered.others, fun moves' after' out' h' l => ?_⟩
  have hsame : out' = out :=
    Except.ok.inj ((answer?_of_generateAndWriteBy hdry h').1.symm.trans hgenerate)
  rw [hsame] at h'
  exact (delivered_of_generateAndWriteBy hdry h').2.find?_eq hdelivered l

def roleDatamodel : Schema.Datamodel where
  enums := [⟨"user role", ["ADMIN", "MEMBER"], none, none⟩]
  models := []

/-- Two tasks that take turns, the second of which overtakes the first. -/
def overtakingMoves : List Move :=
  (List.replicate 2 [Move.step 0 ⟨"x", 0, none⟩, .step 1 ⟨"y", 0, none⟩]).flatten ++
    [.step 1 ⟨"y", 0, none⟩, .step 1 ⟨"y", 40, none⟩, .step 0 ⟨"y", 0, none⟩] ++
    List.replicate 2 (.step 1 ⟨"y", 0, none⟩) ++ [.collect 1] ++
    List.replicate 3 (.step 0 ⟨"x", 0, none⟩) ++ [.collect 0]

theorem exists_eq_of_isOk {result : FileTree × Option (Except Error Output)}
    (h : result.2.map Except.isOk = some true) : ∃ after out, result = (after, some (.ok out)) := by
  obtain ⟨after, answer⟩ := result
  obtain ⟨r, rfl, hr⟩ := Option.map_eq_some_iff.mp h
  obtain ⟨out, rfl⟩ := exists_ok_of_isOk hr
  exact ⟨after, out, rfl⟩

theorem exists_generateAndWriteBy_roleDatamodel :
    ∃ after out, generateAndWriteBy overtakingMoves .empty [] (.ofDatamodel roleDatamodel)
      { Config.standard with dryRun := false } (fun _ => none) ⟨"/work"⟩ =
        (after, some (.ok out)) :=
  exists_eq_of_isOk (by decide +kernel)

theorem generateAndWriteBy_delivers_roleDatamodel :
    ∃ after out, generateAndWriteBy overtakingMoves .empty [] (.ofDatamodel roleDatamodel)
        { Config.standard with dryRun := false } (fun _ => none) ⟨"/work"⟩ =
          (after, some (.ok out)) ∧
      (∀ f ∈ out.files, after.read [] ((⟨"./base"⟩ : Path).join f.path) = .ok f.content) ∧
      (generateAndWriteBy overtakingMoves .empty [] (.ofDatamodel roleDatamodel) .standard
        (fun _ => none) ⟨"/work"⟩).1 = .empty := by
  obtain ⟨after, out, hout⟩ := exists_generateAndWriteBy_roleDatamodel
  obtain ⟨-, hdelivers, -⟩ := generateAndWriteBy_delivers overtakingMoves .empty []
    (.ofDatamodel roleDatamodel) { Config.standard with dryRun := false } (fun _ => none)
    ⟨"/work"⟩
  obtain ⟨-, -, hfound, -, -⟩ := hdelivers rfl after out hout
  obtain ⟨hdry, -⟩ := generateAndWriteBy_delivers overtakingMoves .empty []
    (.ofDatamodel roleDatamodel) .standard (fun _ => none) ⟨"/work"⟩
  exact ⟨after, out, hout, fun f hf => (hfound f hf).1, hdry (.inr rfl)⟩

end Scaffold
