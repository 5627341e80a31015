import Scaffold.Proofs.Collecting

/-!
# One task after another

Every write can be brought to its end. A task whose steps are not refused comes at least
one stage further with each of them, as the name that it draws is longer than every name
in the tree. Taking the tasks in turn, each with enough steps, is therefore a way from
any point of a run to its answer, and it is one of the ways in which tasks can move: what
holds after all moves holds of the write that is done in turn.
-/

namespace Scaffold

/-- A bound on the quiet steps that a task is from its end. -/
def Stage.remaining : Stage → Nat
  | waiting => 7
  | begun => 6
  | placed => 5
  | opened _ => 4
  | filled _ => 3
  | discarding _ _ => 2
  | refused _ => 1
  | written | skipped | failed _ | dropped => 0

theorem Stage.remaining_le (stage : Stage) : stage.remaining ≤ WriteRun.stepsOfTask := by
  cases stage <;> simp [remaining, WriteRun.stepsOfTask]

theorem Stage.isFinal_of_remaining {stage : Stage} (h : stage.remaining = 0) :
    stage.isFinal = true := by
  cases stage <;> first | rfl | cases h

theorem start_le_foldl_max (lengths : List Nat) (start : Nat) :
    start ≤ lengths.foldl max start := by
  induction lengths generalizing start with
  | nil => exact Nat.le_refl start
  | cons first lengths ih => exact Nat.le_trans (Nat.le_max_left _ _) (ih (max start first))

theorem le_foldl_max {lengths : List Nat} {n : Nat} (hn : n ∈ lengths) (start : Nat) :
    n ≤ lengths.foldl max start := by
  induction lengths generalizing start with
  | nil => cases hn
  | cons first lengths ih =>
      rcases List.mem_cons.mp hn with rfl | hn
      · exact Nat.le_trans (Nat.le_max_right _ _) (start_le_foldl_max lengths (max start n))
      · exact ih hn (max start first)

/-- Nothing in a tree has the name that is drawn in quiet surroundings. -/
theorem find?_freshLetters (tree : FileTree) (directory : Location) :
    tree.find? (directory ++ [temporaryName (WriteRun.freshLetters tree)]) = none := by
  have hsome : (directory ++ [temporaryName (WriteRun.freshLetters tree)]).isEmpty = false := by
    simp
  rw [FileTree.find?, hsome, if_neg Bool.false_ne_true, List.lookup_eq_none_iff]
  intro e he
  rw [bne_iff_ne]
  intro hplace
  have hname : temporaryName (WriteRun.freshLetters tree) ∈ e.1 := by
    rw [← hplace]
    simp
  have hinner := le_foldl_max (List.mem_map_of_mem (f := fun s : String => s.toList.length) hname) 0
  have houter := le_foldl_max (List.mem_map_of_mem (f := fun e : Location × Node =>
    (e.1.map fun s => s.toList.length).foldl max 0) he) 0
  have hlength : (temporaryName (WriteRun.freshLetters tree)).toList.length =
      4 + (tree.entries.map fun e =>
        (e.1.map fun s => s.toList.length).foldl max 0).foldl max 0 := by
    rw [temporaryName, WriteRun.freshLetters, String.toList_append, List.length_append,
      @String.toList_ofList (List.replicate _ _), List.length_replicate]
    rfl
  have hle := Nat.le_trans hinner houter
  omega

namespace WriteTask

/-- In quiet surroundings every step brings a task nearer to its end. -/
theorem remaining_step {letters : String} {tree : FileTree}
    (hfree : ∀ directory, tree.find? (directory ++ [temporaryName letters]) = none)
    (workingDirectory : Location) (raised : Bool) (task : WriteTask) :
    (step workingDirectory ⟨letters, 0, none⟩ tree raised task).task.stage.remaining ≤
      task.stage.remaining - 1 := by
  cases hstage : task.stage with
  | waiting =>
      simp only [step, hstage]
      cases raised with
      | true => exact Nat.zero_le _
      | false => exact Nat.le_refl _
  | begun =>
      simp only [step, hstage]
      split
      · exact (by decide : 1 ≤ 5)
      · exact Nat.le_refl _
  | placed =>
      simp only [step, hstage]
      split
      · exact (by decide : 1 ≤ 4)
      next temporary htemporary =>
        obtain ⟨directory, -, hbeside⟩ := bind_eq_ok.mp htemporary
        split at hbeside
        · obtain rfl := pure_eq_ok.mp hbeside
          rw [hfree directory]
          exact Nat.le_refl _
        · cases hbeside
        · cases hbeside
  | opened temporary =>
      simp only [step, hstage]
      exact Nat.le_refl _
  | filled temporary =>
      simp only [step, hstage]
      split
      · exact Nat.le_refl _
      · exact Nat.zero_le _
  | discarding temporary e =>
      simp only [step, hstage]
      exact Nat.le_refl _
  | refused e =>
      simp only [step, hstage]
      exact Nat.le_refl _
  | written | skipped | failed | dropped =>
      simp only [step, hstage]
      exact Nat.le_refl _

end WriteTask

namespace WriteRun

variable {workingDirectory : Location} {run : WriteRun} {i : Nat} {task : WriteTask}

theorem remaining_quietly (workingDirectory : Location) (htask : run.tasks[i]? = some task) :
    ∃ after, (run.quietly workingDirectory i).tasks[i]? = some after ∧
      after.stage.remaining ≤ task.stage.remaining - 1 := by
  refine ⟨_, ?_, WriteTask.remaining_step (find?_freshLetters run.tree) workingDirectory
    run.raised task⟩
  rw [quietly, move, onTask, htask]
  exact List.getElem?_set_self (List.getElem?_eq_some_iff.mp htask).1

theorem remaining_quietly_replicate (workingDirectory : Location) (n : Nat)
    (htask : run.tasks[i]? = some task) :
    ∃ after, ((List.replicate n i).foldl (quietly workingDirectory) run).tasks[i]? = some after ∧
      after.stage.remaining ≤ task.stage.remaining - n := by
  induction n generalizing run task with
  | zero => exact ⟨task, htask, Nat.le_refl _⟩
  | succ n ih =>
      obtain ⟨next, hnext, hle⟩ := remaining_quietly workingDirectory htask
      obtain ⟨after, hafter, hle'⟩ := ih hnext
      refine ⟨after, hafter, ?_⟩
      omega

/-- A run to which some moves lead. -/
def LeadsTo (workingDirectory : Location) (run run' : WriteRun) : Prop :=
  ∃ moves, run' = run.play workingDirectory moves

theorem LeadsTo.trans {run' run'' : WriteRun} (h : run.LeadsTo workingDirectory run')
    (h' : run'.LeadsTo workingDirectory run'') : run.LeadsTo workingDirectory run'' := by
  obtain ⟨moves, rfl⟩ := h
  obtain ⟨more, rfl⟩ := h'
  exact ⟨moves ++ more, (play_append workingDirectory run moves more).symm⟩

theorem LeadsTo.foldl {f : WriteRun → Nat → WriteRun}
    (hf : ∀ (run : WriteRun) (i : Nat), run.LeadsTo workingDirectory (f run i)) (run : WriteRun)
    (is : List Nat) : run.LeadsTo workingDirectory (is.foldl f run) := by
  induction is generalizing run with
  | nil => exact ⟨[], rfl⟩
  | cons i is ih => exact (hf run i).trans (ih (f run i))

theorem leadsTo_quietly (workingDirectory : Location) (run : WriteRun) (i : Nat) :
    run.LeadsTo workingDirectory (run.quietly workingDirectory i) :=
  ⟨[.step i ⟨freshLetters run.tree, 0, none⟩], rfl⟩

theorem leadsTo_finish (workingDirectory : Location) (run : WriteRun) (i : Nat) :
    run.LeadsTo workingDirectory (run.finish workingDirectory i) :=
  (LeadsTo.foldl (leadsTo_quietly workingDirectory) run _).trans ⟨[.collect i], rfl⟩

/-- Taking the tasks in turn is one way in which they can move. -/
theorem leadsTo_inTurn (workingDirectory : Location) (run : WriteRun) :
    run.LeadsTo workingDirectory (run.inTurn workingDirectory) :=
  LeadsTo.foldl (leadsTo_finish workingDirectory) run _

theorem Faithful.settled_finish (h : run.Faithful) (hi : i < run.tasks.length) :
    (run.finish workingDirectory i).Settled i := by
  obtain ⟨moves, hquiet⟩ := LeadsTo.foldl (leadsTo_quietly workingDirectory) run
    (List.replicate stepsOfTask i)
  obtain ⟨after, hafter, hle⟩ := remaining_quietly_replicate workingDirectory stepsOfTask
    (List.getElem?_eq_getElem hi)
  have hfaithful : ((List.replicate stepsOfTask i).foldl (quietly workingDirectory)
      run).Faithful := by
    rw [hquiet]
    exact h.play moves
  refine hfaithful.settled_collect hafter (Stage.isFinal_of_remaining ?_)
  have hbound := Stage.remaining_le run.tasks[i].stage
  omega

theorem Faithful.settled_foldl_finish (h : run.Faithful) {is : List Nat}
    (his : ∀ i ∈ is, i < run.tasks.length) :
    ∀ i ∈ is, (is.foldl (finish workingDirectory) run).Settled i := by
  induction is generalizing run with
  | nil => exact nofun
  | cons first is ih =>
      obtain ⟨moves, hfinish⟩ := leadsTo_finish workingDirectory run first
      have hfaithful : (run.finish workingDirectory first).Faithful := by
        rw [hfinish]
        exact h.play moves
      have hlength : (run.finish workingDirectory first).tasks.length = run.tasks.length := by
        rw [hfinish, length_tasks_play]
      intro i hi
      rcases List.mem_cons.mp hi with rfl | hi
      · have hsettled : (run.finish workingDirectory i).Settled i :=
          h.settled_finish (his i List.mem_cons_self)
        obtain ⟨more, hmore⟩ := LeadsTo.foldl (leadsTo_finish workingDirectory)
          (run.finish workingDirectory i) is
        rw [List.foldl_cons, hmore]
        exact hsettled.play more
      · refine ih hfaithful (fun j hj => ?_) i hi
        rw [hlength]
        exact his j (List.mem_cons_of_mem first hj)

/-- From every point of a run, taking the tasks in turn leads to its end. -/
theorem Faithful.inTurn (h : run.Faithful) :
    (∀ task ∈ (run.inTurn workingDirectory).tasks, task.stage.isFinal = true) ∧
      (run.inTurn workingDirectory).hasAnswered = true := by
  obtain ⟨moves, hmoves⟩ := leadsTo_inTurn workingDirectory run
  have hfaithful : (run.inTurn workingDirectory).Faithful := by
    rw [hmoves]
    exact h.play moves
  refine hfaithful.over_of_settled fun i hi => ?_
  rw [hmoves, length_tasks_play] at hi
  exact h.settled_foldl_finish (fun j hj => List.mem_range.mp hj) i (List.mem_range.mpr hi)

end WriteRun

end Scaffold
