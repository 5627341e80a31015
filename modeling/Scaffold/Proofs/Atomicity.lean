import Mathlib.Data.List.Nodup
import Scaffold.Proofs.InTurn

/-!
# Whole files or none

This is what a write promises, whatever order its tasks move in and whichever of their
steps are refused. The caller is told of a failure exactly if there was one, and a
failure stops the tasks that have not begun. When all is over there is no file that was
not there before and that no task has written. And a reader of a destination sees what
stood there before or the whole new text.

The last of these needs two things that paths alone do not give. A path can lead through
the place of another file, and then a directory may be made at a place where nothing
stood. And a temporary file can be given a name that is also that of a destination, which
is then held by a part of some other text for a while. Both happen, and the two runs in
the middle of this file show it.
-/

namespace Scaffold

/-- Where a file is written below a root. -/
def GeneratedFile.place (workingDirectory : Location) (root : Path) (f : GeneratedFile) :
    Location :=
  (root.join f.path).place workingDirectory

namespace WriteRun

variable {workingDirectory : Location} {tree : FileTree} {root : Path}
  {files : List GeneratedFile} {run : WriteRun} {i : Nat}

/-- What a write tells its caller and its tasks at some point. -/
structure Reports (workingDirectory : Location) (run : WriteRun) : Prop where
  /-- An answer is an error exactly if some task failed. -/
  fails : ∀ r, run.answer? = some r →
    ((∃ e, r = .error e) ↔ ∃ task ∈ run.tasks, ∃ e, task.stage = .failed e)
  /-- When all tasks have ended, collecting the ends in any order gives an answer. -/
  answers : (∀ task ∈ run.tasks, task.stage.isFinal = true) →
    ∀ order : List Nat, (∀ i < run.tasks.length, i ∈ order) →
      (run.play workingDirectory (order.map .collect)).answer?.isSome = true
  /-- All tasks can still end. -/
  ends : ∃ more, ∀ task ∈ (run.play workingDirectory more).tasks, task.stage.isFinal = true
  /-- A raised flag is never lowered. -/
  raised : run.raised = true → ∀ more, (run.play workingDirectory more).raised = true
  /-- A task that has yet to look at a raised flag never touches the tree. -/
  holds : run.raised = true → ∀ (i : Nat) (task : WriteTask), run.tasks[i]? = some task →
    task.stage = .waiting → ∀ more m, m.task = i →
      ((run.play workingDirectory more).move workingDirectory m).tree =
        (run.play workingDirectory more).tree
  /-- A move of a task that is skipped in the end leaves the tree alone. -/
  skips : ∀ m more task,
    ((run.move workingDirectory m).play workingDirectory more).tasks[m.task]? = some task →
      task.stage = .skipped → (run.move workingDirectory m).tree = run.tree

theorem isSome_answer? (run : WriteRun) : run.answer?.isSome = run.hasAnswered := by
  rw [answer?]
  split
  next h => exact h.symm
  next h => exact (eq_false_of_ne_true h).symm

/-- A task that the flag keeps from beginning. -/
def Held (run : WriteRun) (i : Nat) : Prop :=
  run.raised = true ∧ ∃ task, run.tasks[i]? = some task ∧
    (task.stage = .waiting ∨ task.stage.isFinal = true)

theorem Held.move (h : run.Held i) (m : Move) : (run.move workingDirectory m).Held i := by
  obtain ⟨hraised, task, htask, hstage⟩ := h
  obtain ⟨stage, failed, raised, hafter, hturn⟩ := exists_turn workingDirectory m htask
  refine ⟨raised_move hraised, _, hafter, ?_⟩
  rcases hstage with hwaiting | hfinal
  · rw [hraised, hwaiting] at hturn
    exact hturn.of_waiting
  · rw [hturn.of_isFinal hfinal]
    exact .inr hfinal

/-- A task that is not at work leaves the tree alone. -/
theorem tree_move_of_idle {m : Move} (h : ∀ task, run.tasks[m.task]? = some task →
    task.stage = .waiting ∨ task.stage.isFinal = true) :
    (run.move workingDirectory m).tree = run.tree := by
  have hnext := next_move workingDirectory run m
  generalize run.move workingDirectory m = run' at hnext ⊢
  cases hnext with
  | moves htask hmoves => exact hmoves.effect.tree_eq (h _ htask)
  | nothing | notes | breaks => rfl

/-- A task that has begun, or has come to its end without being skipped. -/
def HasBegun (run : WriteRun) (i : Nat) : Prop :=
  ∃ task, run.tasks[i]? = some task ∧ task.stage ≠ .waiting ∧ task.stage ≠ .skipped

theorem HasBegun.move (h : run.HasBegun i) (m : Move) :
    (run.move workingDirectory m).HasBegun i := by
  obtain ⟨task, htask, hwaiting, hskipped⟩ := h
  obtain ⟨stage, failed, raised, hafter, hturn⟩ := exists_turn workingDirectory m htask
  exact ⟨_, hafter, hturn.ne_skipped hwaiting hskipped⟩

theorem HasBegun.play (h : run.HasBegun i) (moves : List Move) :
    (run.play workingDirectory moves).HasBegun i :=
  play_induction (motive := (HasBegun · i)) (fun _ m _ hrun => hrun.move m) h

theorem tree_move_of_skipped {m : Move} {more : List Move} {task : WriteTask}
    (htask : ((run.move workingDirectory m).play workingDirectory more).tasks[m.task]? = some task)
    (hskipped : task.stage = .skipped) : (run.move workingDirectory m).tree = run.tree := by
  refine tree_move_of_idle fun before hbefore => ?_
  by_contra hidle
  push Not at hidle
  have hbegun : run.HasBegun m.task := by
    refine ⟨before, hbefore, hidle.1, fun hstage => hidle.2 ?_⟩
    rw [hstage]
    rfl
  obtain ⟨after, hafter, -, hne⟩ := (hbegun.move m).play more
  obtain rfl := Option.some.inj (htask.symm.trans hafter)
  exact hne hskipped

theorem Faithful.reports (h : run.Faithful) : run.Reports workingDirectory := by
  refine ⟨fun r hr => h.isError_iff hr, fun hfinal order horder => ?_, ?_,
    fun hraised more => ?_, fun hraised i task htask hwaiting more m hm => ?_,
    fun m more task htask hskipped => tree_move_of_skipped htask hskipped⟩
  · rw [isSome_answer?]
    exact h.hasAnswered_of_collects hfinal horder
  · obtain ⟨more, hmore⟩ := leadsTo_inTurn workingDirectory run
    refine ⟨more, ?_⟩
    rw [← hmore]
    exact h.inTurn.1
  · exact play_induction (motive := fun run => run.raised = true)
      (fun _ _ _ hrun => raised_move hrun) hraised
  · have hheld : run.Held i := ⟨hraised, task, htask, .inl hwaiting⟩
    have hafter : (run.play workingDirectory more).Held i :=
      play_induction (motive := (Held · i)) (fun _ _ _ hrun => hrun.move _) hheld
    obtain ⟨-, after, htask, hstage⟩ := hafter
    subst hm
    refine tree_move_of_idle fun other hother => ?_
    rwa [← Option.some.inj (htask.symm.trans hother)]

theorem waiting_of_mem_writeTasks {task : WriteTask} (htask : task ∈ writeTasks root files) :
    task.stage = .waiting := by
  obtain ⟨f, -, rfl⟩ := List.mem_map.mp htask
  rfl

theorem map_place_writeTasks (workingDirectory : Location) (root : Path)
    (files : List GeneratedFile) :
    (writeTasks root files).map (WriteTask.place workingDirectory) =
      files.map (GeneratedFile.place workingDirectory root) := by
  rw [writeTasks, List.map_map]
  rfl

theorem faithful_ofFiles (tree : FileTree) (root : Path) (files : List GeneratedFile) :
    (ofFiles tree root files).Faithful :=
  .start tree fun _ => waiting_of_mem_writeTasks

theorem sound_ofFiles (workingDirectory : Location) (tree : FileTree) (root : Path)
    (files : List GeneratedFile) :
    (ofFiles tree root files).Sound workingDirectory (writeTasks root files) tree :=
  .start workingDirectory tree fun _ => waiting_of_mem_writeTasks

/-- The run behind a write of files keeps temporary files and destinations apart, as long
as destinations are distinct and no temporary file is called like one of them. -/
theorem whole_play_ofFiles (tree : FileTree)
    (hdistinct : (files.map (GeneratedFile.place workingDirectory root)).Nodup)
    {moves : List Move}
    (hspares : ∀ m ∈ moves, m.Spares (files.map (GeneratedFile.place workingDirectory root))) :
    ((ofFiles tree root files).play workingDirectory moves).Whole workingDirectory
      (writeTasks root files) := by
  rw [← map_place_writeTasks] at hdistinct hspares
  exact (Whole.start workingDirectory tree fun _ => waiting_of_mem_writeTasks).play
    (sound_ofFiles workingDirectory tree root files) hdistinct hspares

/-- Behind every task is the file that it writes. -/
theorem Sound.exists_file (h : run.Sound workingDirectory (writeTasks root files) tree)
    {task : WriteTask} (hi : run.tasks[i]? = some task) :
    ∃ f, files[i]? = some f ∧ f.place workingDirectory root = task.place workingDirectory ∧
      f.content = task.content := by
  have hplanned : (writeTasks root files)[i]? = some (task.withStage .waiting) := by
    rw [← h.planned, List.getElem?_map, hi, Option.map_some]
  rw [writeTasks, List.getElem?_map] at hplanned
  obtain ⟨f, hf, heq⟩ := Option.map_eq_some_iff.mp hplanned
  refine ⟨f, hf, ?_, congrArg WriteTask.content heq⟩
  rw [← WriteTask.place_withStage workingDirectory task .waiting, ← heq]
  rfl

/-- Every file was there before or is one that a task has written. -/
def Clean (workingDirectory : Location) (tree : FileTree) (root : Path)
    (files : List GeneratedFile) (run : WriteRun) : Prop :=
  ∀ l text, run.tree.find? l = some (.file text) →
    tree.find? l = some (.file text) ∨
    ∃ (i : Nat) (f : GeneratedFile) (task : WriteTask), files[i]? = some f ∧
      run.tasks[i]? = some task ∧ task.stage = .written ∧ f.place workingDirectory root = l

theorem Sound.clean (h : run.Sound workingDirectory (writeTasks root files) tree)
    (hfinal : ∀ task ∈ run.tasks, task.stage.isFinal = true) :
    run.Clean workingDirectory tree root files := by
  intro l text htext
  rcases h.accounted l with hsame | ⟨-, hdirectory, -⟩ | ⟨-, i, task, hi, htemporary | hwritten⟩
  · exact .inl (hsame.symm.trans htext)
  · rw [hdirectory] at htext
    cases htext
  · -- A task with a temporary file has not come to its end.
    have hend := hfinal task (List.mem_of_getElem? hi)
    cases hstage : task.stage with
    | written | skipped | failed | dropped =>
        rw [hstage] at htemporary
        cases htemporary
    | waiting | begun | placed | opened | filled | discarding | refused =>
        rw [hstage] at hend
        cases hend
  · obtain ⟨f, hf, hplace, -⟩ := h.exists_file hi
    exact .inr ⟨i, f, task, hf, hi, hwritten.1, hplace.trans hwritten.2⟩

/-- Every destination is as it was before or holds the whole new text. -/
def OldOrNew (workingDirectory : Location) (tree : FileTree) (root : Path)
    (files : List GeneratedFile) (run : WriteRun) : Prop :=
  ∀ f ∈ files,
    run.tree.find? (f.place workingDirectory root) = tree.find? (f.place workingDirectory root) ∨
    run.tree.find? (f.place workingDirectory root) = some (.file f.content)

instance (workingDirectory : Location) (tree : FileTree) (root : Path)
    (files : List GeneratedFile) (run : WriteRun) :
    Decidable (run.OldOrNew workingDirectory tree root files) :=
  inferInstanceAs (Decidable (∀ f ∈ files,
    run.tree.find? (f.place workingDirectory root) = tree.find? (f.place workingDirectory root) ∨
    run.tree.find? (f.place workingDirectory root) = some (.file f.content)))

/-- A file whose path leads through its own place. -/
def turningFile : GeneratedFile := ⟨⟨"a/../a"⟩, "text", .index⟩

/-- Two files, the first of which is called like a temporary file. -/
def disguisedFiles : List GeneratedFile :=
  [⟨⟨".tmpAbCdEf"⟩, "first", .index⟩, ⟨⟨"b"⟩, "second", .index⟩]

/-- A path can make a directory of a destination, and a temporary file can have the name
of a destination while a part of another text is in it. -/
theorem not_oldOrNew :
    (([turningFile].map (GeneratedFile.place [] ⟨"base"⟩)).Nodup ∧
      ¬ ((ofFiles .empty ⟨"base"⟩ [turningFile]).play []
          (List.replicate 7 (.step 0 ⟨"AbCdEf", 0, none⟩) ++ [.collect 0])).OldOrNew [] .empty
        ⟨"base"⟩ [turningFile]) ∧
    (disguisedFiles.map (GeneratedFile.place [] ⟨"base"⟩)).Nodup ∧
      ¬ ((ofFiles .empty ⟨"base"⟩ disguisedFiles).play []
          (List.replicate 3 (.step 1 ⟨"AbCdEf", 0, none⟩) ++
            [.step 1 ⟨"AbCdEf", 1, none⟩])).OldOrNew [] .empty ⟨"base"⟩ disguisedFiles := by
  decide +kernel

/-- Every destination is as it was before, or it holds the whole new text, or it has become
a directory because the path to a destination leads through it. -/
def Intact (workingDirectory : Location) (tree : FileTree) (root : Path)
    (files : List GeneratedFile) (run : WriteRun) : Prop :=
  ∀ f ∈ files,
    run.tree.find? (f.place workingDirectory root) = tree.find? (f.place workingDirectory root) ∨
    run.tree.find? (f.place workingDirectory root) = some (.file f.content) ∨
    (tree.find? (f.place workingDirectory root) = none ∧
      run.tree.find? (f.place workingDirectory root) = some .directory ∧
      ∃ g ∈ files, (root.join g.path).LeadsThrough workingDirectory
        (f.place workingDirectory root))

theorem Whole.intact (h : run.Whole workingDirectory (writeTasks root files))
    (hsound : run.Sound workingDirectory (writeTasks root files) tree)
    (hdistinct : (files.map (GeneratedFile.place workingDirectory root)).Nodup) :
    run.Intact workingDirectory tree root files := by
  intro f hf
  rcases hsound.accounted (f.place workingDirectory root) with
    hsame | ⟨hnone, hdirectory, hway⟩ | ⟨-, i, task, hi, htemporary | ⟨hwritten, hplace⟩⟩
  · exact .inl hsame
  · obtain ⟨other, hother, hthrough⟩ := hway
    obtain ⟨g, hg, rfl⟩ := List.mem_map.mp hother
    exact .inr (.inr ⟨hnone, hdirectory, g, hg, hthrough⟩)
  · have hne := h.apart hi htemporary (.start (root.join f.path) f.content)
      (List.mem_map_of_mem hf)
    exact absurd rfl hne
  · -- One destination belongs to one file, so the text there is that of this file.
    obtain ⟨g, hg, hgplace, hcontent⟩ := hsound.exists_file hi
    have hsame : g = f :=
      List.inj_on_of_nodup_map hdistinct (List.mem_of_getElem? hg) hf (hgplace.trans hplace)
    refine .inr (.inl ?_)
    rw [← hplace, (h.whole hi).written hwritten, ← hcontent, hsame]

/-- Whatever order the tasks of a write move in and whichever of their steps are refused, a
failure is told exactly if there was one, the flag keeps the tasks that have not begun
from the tree, no temporary file is left, and no part of a text is ever read. -/
theorem ofFiles_reports_intact (workingDirectory : Location) (tree : FileTree) (root : Path)
    (files : List GeneratedFile) (moves : List Move) :
    ((ofFiles tree root files).play workingDirectory moves).Reports workingDirectory ∧
    ((∀ task ∈ ((ofFiles tree root files).play workingDirectory moves).tasks,
        task.stage.isFinal = true) →
      ((ofFiles tree root files).play workingDirectory moves).Clean workingDirectory tree root
        files) ∧
    ((files.map (GeneratedFile.place workingDirectory root)).Nodup →
      (∀ m ∈ moves, m.Spares (files.map (GeneratedFile.place workingDirectory root))) →
      ((ofFiles tree root files).play workingDirectory moves).Intact workingDirectory tree root
        files) := by
  have hsound := (sound_ofFiles workingDirectory tree root files).play moves
  refine ⟨((faithful_ofFiles tree root files).play moves).reports, hsound.clean,
    fun hdistinct hspares => ?_⟩
  exact (whole_play_ofFiles tree hdistinct hspares).intact hsound hdistinct

def twoFiles : List GeneratedFile :=
  [⟨⟨"enums/Role.ts"⟩, "export enum Role", .enumeration⟩,
    ⟨⟨"user/UserBase.ts"⟩, "export class UserBase", .entity⟩]

/-- The second file is refused its temporary file while the first one is half written. -/
def refusingMoves : List Move :=
  [.step 0 ⟨"x", 0, none⟩, .step 1 ⟨"y", 0, none⟩, .step 0 ⟨"x", 0, none⟩,
    .step 1 ⟨"y", 0, none⟩, .step 0 ⟨"x", 0, none⟩, .step 0 ⟨"x", 9, none⟩,
    .step 1 ⟨"y", 0, some (.other "Too many open files (os error 24)")⟩,
    .step 1 ⟨"y", 0, none⟩, .collect 1, .step 0 ⟨"x", 0, none⟩, .step 0 ⟨"x", 0, none⟩]

theorem ofFiles_reports_intact_twoFiles :
    (∀ task ∈ ((ofFiles .empty ⟨"base"⟩ twoFiles).play [] refusingMoves).tasks,
      task.stage.isFinal = true) ∧
    (twoFiles.map (GeneratedFile.place [] ⟨"base"⟩)).Nodup ∧
    (∀ m ∈ refusingMoves, m.Spares (twoFiles.map (GeneratedFile.place [] ⟨"base"⟩))) ∧
    ((ofFiles .empty ⟨"base"⟩ twoFiles).play [] refusingMoves).Reports [] ∧
    ((ofFiles .empty ⟨"base"⟩ twoFiles).play [] refusingMoves).Clean [] .empty ⟨"base"⟩
      twoFiles ∧
    ((ofFiles .empty ⟨"base"⟩ twoFiles).play [] refusingMoves).Intact [] .empty ⟨"base"⟩
      twoFiles := by
  have hfinal : ∀ task ∈ ((ofFiles .empty ⟨"base"⟩ twoFiles).play [] refusingMoves).tasks,
      task.stage.isFinal = true := by decide +kernel
  have hdistinct : (twoFiles.map (GeneratedFile.place [] ⟨"base"⟩)).Nodup := by decide +kernel
  have hspares : ∀ m ∈ refusingMoves,
      m.Spares (twoFiles.map (GeneratedFile.place [] ⟨"base"⟩)) := by decide +kernel
  obtain ⟨hreports, hclean, hintact⟩ :=
    ofFiles_reports_intact [] .empty ⟨"base"⟩ twoFiles refusingMoves
  exact ⟨hfinal, hdistinct, hspares, hreports, hclean hfinal, hintact hdistinct hspares⟩

end WriteRun

end Scaffold
